import Corus.Reference.Smaps

/-!
# Header lines of the C library

Where the port reads the line of a mapping to its end, the C library reads the same
record.
-/

namespace Corus.Reference

open Corus.Logical Corus.Elf Corus.Proc

/-- The record of the C library is part of the record of the port. -/
def segmentOf (mapping : Mapping) : Segment where
  startAddress := mapping.start
  endAddress := mapping.end
  offset := mapping.offset
  writeSize := mapping.writeSize
  flags := mapping.flags.bits
  isAnon := mapping.isAnon
  nameLen := mapping.nameLen
  name := mapping.name

/-! ## Numbers -/

/-- The two libraries agree on hexadecimal digits. -/
theorem hexNibble_eq (ch : Byte) : hexNibble ch = if isHex ch then some (hexValue ch) else none := by
  have checked : ∀ value ∈ List.range 256,
      hexNibble (UInt8.ofNat value) = if isHex (UInt8.ofNat value) then some (hexValue (UInt8.ofNat value)) else none := by
    decide +kernel
  have spelled : ch = UInt8.ofNat ch.toNat := (UInt8.ofNat_toNat).symm
  rw [spelled]
  exact checked ch.toNat (List.mem_range.mpr ch.toNat_lt)

theorem getHexWithInitChar_eq (hex : UInt64) (text : Bytes) :
    getHexWithInitChar hex text = (headerStart hex text, text.dropWhile Io.isHexDigit) := by
  induction text generalizing hex with
  | nil => rfl
  | cons ch rest ih =>
      have nibble := hexNibble_eq ch
      by_cases digit : isHex ch = true
      · rw [if_pos digit] at nibble
        have counts : Io.isHexDigit ch = true := by rw [Io.isHexDigit, nibble]; rfl
        rw [getHexWithInitChar, if_pos digit, ih, List.dropWhile_cons_of_pos counts]
        simp only [headerStart, nibble]
      · rw [if_neg digit] at nibble
        have other : ¬ Io.isHexDigit ch = true := by simp [Io.isHexDigit, nibble]
        rw [getHexWithInitChar, if_neg digit, List.dropWhile_cons_of_neg other]
        simp only [headerStart, nibble]

theorem delimitedHex_eq (delimiter : Byte) (text : Bytes) : delimitedHex delimiter text = scanHex delimiter text := by
  unfold delimitedHex scanHex
  rw [getHexWithInitChar_eq]
  cases text.dropWhile Io.isHexDigit with
  | nil => rfl
  | cons ch rest => rfl

/-! ## Fields -/

theorem readFlags_eq (flags : UInt16) (text : Bytes) : readFlags flags text =
    match text.dropWhile (· != space) with
    | [] => none
    | _ :: rest => some ((text.takeWhile (· != space)).foldl shiftPerm flags, rest) := by
  induction text generalizing flags with
  | nil => rfl
  | cons ch rest ih =>
      by_cases ends : ch = space
      · have stops : ¬ (ch != space) = true := by simp [ends]
        rw [readFlags, if_pos ends, List.dropWhile_cons_of_neg (p := (· != space)) stops,
          List.takeWhile_cons_of_neg (p := (· != space)) stops]
        rfl
      · have more : (ch != space) = true := by simp [ends]
        rw [readFlags, if_neg ends, ih, List.dropWhile_cons_of_pos (p := (· != space)) more,
          List.takeWhile_cons_of_pos (p := (· != space)) more]
        rfl

theorem readFlags_scanPerms (text : Bytes) : readFlags 0 text = scanPerms text := readFlags_eq 0 text

theorem skipSolid_eq {text : Bytes} (more : text.dropWhile (fun ch => ch != space && ch != newline) ≠ []) :
    skipSolid text = some (text.dropWhile fun ch => ch != space && ch != newline) := by
  induction text with
  | nil => exact absurd rfl more
  | cons ch rest ih =>
      by_cases solid : (ch != space && ch != newline) = true
      · rw [List.dropWhile_cons_of_pos (p := fun ch => ch != space && ch != newline) solid] at more ⊢
        rw [skipSolid, if_pos solid, ih more]
      · rw [List.dropWhile_cons_of_neg (p := fun ch => ch != space && ch != newline) solid, skipSolid, if_neg solid]

/-- A field that does not end with the file is skipped. -/
theorem skipField_eq {text : Bytes} (more : dropField text ≠ []) : skipField text = some (dropField text) := by
  have behind : (text.dropWhile (· == space)).dropWhile (fun ch => ch != space && ch != newline) ≠ [] := by
    intro nothing
    rw [dropField, nothing] at more
    exact more rfl
  rw [skipField, skipSolid_eq behind]
  rfl

theorem readName_eq {buffer : NameBuffer} {text rest : Bytes}
    (ends : text.dropWhile (· != newline) = newline :: rest) :
    Reference.readName buffer text =
      some ((text.takeWhile (· != newline)).foldl NameBuffer.push buffer, newline :: rest) := by
  induction text generalizing buffer with
  | nil => cases ends
  | cons ch text ih =>
      by_cases stop : ch = newline
      · have stops : ¬ (ch != newline) = true := by simp [stop]
        rw [List.dropWhile_cons_of_neg (p := (· != newline)) stops] at ends
        rw [Reference.readName, if_pos stop, List.takeWhile_cons_of_neg (p := (· != newline)) stops, ends]
        rfl
      · have more : (ch != newline) = true := by simp [stop]
        rw [List.dropWhile_cons_of_pos (p := (· != newline)) more] at ends
        rw [Reference.readName, if_neg stop, ih ends, List.takeWhile_cons_of_pos (p := (· != newline)) more]
        rfl

/-! ## Lines -/

theorem isDevicePath_eq (path : Bytes) : isDevicePath path =
    if path.length < 5 || path.take 5 != devPath then false else !(path.length == 9 && path.drop 5 == devZero) := rfl

/-- The device test on a stored name. -/
theorem isDevice_eq (segment : Segment) (fits : segment.nameLen < fnameMax) :
    isDevice segment = isDevicePath (segment.name.toList.take segment.nameLen) := by
  have length : (segment.name.toList.take segment.nameLen).length = segment.nameLen := by
    rw [List.length_take, Vector.length_toList]
    omega
  have five : devPath.length = 5 := rfl
  have four : devZero.length = 4 := rfl
  rw [isDevicePath_eq, length, isDevice, five, four, bne, bne, bne]
  by_cases short : segment.nameLen < 5
  · have few : ¬ 5 ≤ segment.nameLen := Nat.not_le.mpr short
    simp only [short, few, decide_true, decide_false, Bool.true_or, Bool.false_and, if_true]
  · have many : 5 ≤ segment.nameLen := Nat.le_of_not_lt short
    rw [List.take_take, Nat.min_eq_left many]
    generalize (segment.name.toList.take 5 == devPath) = lead
    by_cases nine : segment.nameLen = 9
    · rw [nine, List.drop_take]
      generalize ((segment.name.toList.drop 5).take (9 - 5) == devZero) = zero
      cases lead <;> cases zero <;> rfl
    · have differs : (segment.nameLen == 9) = false := by simp [nine]
      simp only [many, short, differs, decide_true, decide_false]
      cases lead <;> rfl

/-- A line that the port reads to its end is read the same. -/
theorem readHeader_eq {text rest : Bytes} {mapping : Mapping}
    (scanned : scanLine text = some (mapping, newline :: rest)) :
    readHeader text = some (segmentOf mapping, newline :: rest) := by
  simp only [scanLine, Option.bind_eq_bind, Option.bind_eq_some_iff, Option.pure_def, Option.some.injEq,
    Prod.mk.injEq] at scanned
  obtain ⟨⟨start, behindStart⟩, startRead, ⟨stop, behindStop⟩, stopRead, ⟨flags, behindFlags⟩, flagsRead,
    ⟨offset, behindOffset⟩, offsetRead, rfl, ends⟩ := scanned
  have second : dropField (dropField behindOffset) ≠ [] := by
    intro nothing
    rw [nothing] at ends
    cases ends
  have first : dropField behindOffset ≠ [] := by
    intro nothing
    rw [nothing] at second
    exact second rfl
  unfold readHeader
  simp only [delimitedHex_eq, readFlags_scanPerms, startRead, stopRead, flagsRead, offsetRead, Option.bind_eq_bind,
    Option.bind_some, skipField_eq first, skipField_eq second, readName_eq ends]
  rfl

/-- The line that the kernel prints for an area. -/
theorem readHeader_line (vma : Vma) (rest : Bytes) :
    readHeader (vma.line ++ newline :: rest) = some (segmentOf vma.record, newline :: rest) :=
  readHeader_eq (scanLine_line vma rest)

/-- The device test on the record of an area. -/
theorem isDevice_record (vma : Vma) : isDevice (segmentOf vma.record) = vma.record.isDevice := by
  obtain ⟨_, fits⟩ := NameBuffer.stored_name vma.nameBytes
  obtain ⟨_, small, _⟩ := withName_path vma.leading fits
  exact isDevice_eq (segmentOf vma.record) small

end Corus.Reference
