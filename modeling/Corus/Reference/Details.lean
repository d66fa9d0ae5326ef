import Corus.Reference.Header

/-!
# Detail lines of the C library

The areas that the kernel prints into `/proc/self/smaps`, and what the C library takes
from the lines behind their headers.
-/

namespace Corus.Reference

open Corus.Logical Corus.Elf Corus.Proc

/-! ## Areas -/

/-- The text of flags, each followed by a space. -/
def flagsText (flags : List (Byte × Byte)) : Bytes := flags.flatMap fun flag => [flag.1, flag.2, space]

/-- The text of lines. -/
def linesText (lines : List DetailLine) : Bytes := lines.flatMap fun line => line.bytes ++ [newline]

theorem linesText_cons (line : DetailLine) (lines : List DetailLine) :
    linesText (line :: lines) = line.bytes ++ newline :: linesText lines := by
  simp [linesText]

/-- `"Size:"`. -/
def sizeField : Bytes := [0x53, 0x69, 0x7a, 0x65, 0x3a]

/-- `"pf"`, the kernel's VM_PFNMAP. -/
def pfnmapFlag : Byte × Byte := (0x70, 0x66)

/-- The flag excludes its area. -/
def excludes (arch : Arch) (flag : Byte × Byte) : Bool :=
  flag == (0x64, 0x64) || (arch == .aarch64 && flag == pfnmapFlag)

/-- An area with the lines that the kernel prints behind its header: its size first, the
anonymous pages somewhere, and the flags last, each followed by a space. -/
structure Area where
  vma : Vma
  size : DetailLine
  front : List DetailLine
  counts : DetailLine
  middle : List DetailLine
  flags : DetailLine
  sizeBytes : sizeField <+: size.bytes
  plain : ∀ line ∈ front ++ middle, ¬ anonymousField <+: line.bytes ∧ ¬ vmFlagsField <+: line.bytes
  blanks : Nat
  anonymous : Nat
  unit : Bytes
  countsBytes : counts.bytes =
    anonymousField ++ (List.replicate blanks space ++ (numeralText 10 1 anonymous ++ unit))
  unitEnds : ∀ ch ∈ unit.head?, isDecimal ch = false
  vmFlags : List (Byte × Byte)
  lowercase : ∀ flag ∈ vmFlags, isLower flag.1 = true ∧ isLower flag.2 = true
  flagsBytes : flags.bytes = vmFlagsField ++ space :: flagsText vmFlags

namespace Area

variable (area : Area)

/-- The lines behind the header. -/
def details : List DetailLine := area.size :: (area.front ++ area.counts :: (area.middle ++ [area.flags]))

/-- The text of the lines behind the header. -/
def detailsText : Bytes := linesText area.details

/-- The C library excludes the area from dumps. -/
def excluded (arch : Arch) : Bool := area.vmFlags.any (excludes arch)

end Area

/-! ## Parts of a line -/

theorem skipLine_eq {line : Bytes} (oneLine : newline ∉ line) (rest : Bytes) :
    skipLine (line ++ newline :: rest) = some rest := by
  induction line with
  | nil => rfl
  | cons ch line ih =>
      have other : ch ≠ newline := fun same => oneLine (same ▸ List.mem_cons_self)
      rw [List.cons_append, skipLine, if_neg other]
      exact ih fun member => oneLine (List.mem_cons_of_mem _ member)

theorem readWord_append (word text : Bytes) : readWord word (word ++ text) = (true, text) := by
  induction word with
  | nil => rfl
  | cons ch word ih => rw [List.cons_append, readWord, if_pos rfl, ih]

/-- A line without the word is left somewhere before its end. -/
theorem readWord_other {word line : Bytes} (solid : newline ∉ word) (oneLine : newline ∉ line)
    (other : ¬ word <+: line) (rest : Bytes) :
    ∃ behind, newline ∉ behind ∧ readWord word (line ++ newline :: rest) = (false, behind ++ newline :: rest) := by
  induction word generalizing line with
  | nil => exact absurd List.nil_prefix other
  | cons expected word ih =>
      cases line with
      | nil =>
          have differs : newline ≠ expected := fun same => solid (same ▸ List.mem_cons_self)
          refine ⟨[], List.not_mem_nil, ?_⟩
          rw [List.nil_append, readWord, if_neg differs]
      | cons ch line =>
          rw [List.cons_append, readWord]
          by_cases here : ch = expected
          · rw [if_pos here]
            refine ih (fun member => solid (List.mem_cons_of_mem _ member))
              (fun member => oneLine (List.mem_cons_of_mem _ member)) ?_
            intro lead
            exact other (here ▸ List.cons_prefix_cons.mpr ⟨rfl, lead⟩)
          · rw [if_neg here]
            exact ⟨ch :: line, oneLine, rfl⟩

/-- A lowercase letter is neither a space nor the end of a line. -/
theorem isLower_ne {ch : Byte} (lower : isLower ch = true) : ch ≠ space ∧ ch ≠ newline := by
  constructor
  · rintro rfl
    cases lower
  · rintro rfl
    cases lower

/-! ## Flags -/

theorem newline_notMem_flagsText {flags : List (Byte × Byte)}
    (lowercase : ∀ flag ∈ flags, isLower flag.1 = true ∧ isLower flag.2 = true) : newline ∉ flagsText flags := by
  intro member
  obtain ⟨flag, listed, here⟩ := List.mem_flatMap.mp member
  obtain ⟨first, second⟩ := lowercase flag listed
  simp only [List.mem_cons, List.not_mem_nil, or_false] at here
  rcases here with same | same | same
  · exact (isLower_ne first).2 same.symm
  · exact (isLower_ne second).2 same.symm
  · cases same

/-- One flag of the loop: it is recognized, or skipped up to its space. -/
theorem readVmFlag_flag (arch : Arch) {first second : Byte} (firstLower : isLower first = true)
    (secondLower : isLower second = true) (text : Bytes) :
    if excludes arch (first, second) then
      readVmFlag arch (first :: second :: space :: text) = (true, second :: space :: text)
    else readVmFlag arch (first :: second :: space :: text) = (false, space :: text) := by
  have blank : ¬ (first == space) = true := by simpa using (isLower_ne firstLower).1
  have solid : ¬ isLower space = true := by decide
  have letters : (second :: space :: text).dropWhile isLower = space :: text := by
    rw [List.dropWhile_cons_of_pos secondLower, List.dropWhile_cons_of_neg solid]
  have both : (first :: second :: space :: text).dropWhile isLower = space :: text := by
    rw [List.dropWhile_cons_of_pos firstLower, letters]
  have none : (space :: text).dropWhile isLower = space :: text := List.dropWhile_cons_of_neg solid
  have pair : ∀ one other : Byte, ((first, second) == (one, other)) = (first == one && second == other) :=
    fun _ _ => rfl
  unfold readVmFlag excludes
  rw [List.dropWhile_cons_of_neg (p := (· == space)) blank, pair, pfnmapFlag, pair]
  cases d : first == 0x64 with
  | true =>
      obtain rfl := beq_iff_eq.mp d
      cases dd : second == 0x64 with
      | true => simp [readPair, dd]
      | false =>
          cases arch with
          | x86_64 => simp [readPair, dd, letters]
          | aarch64 =>
              by_cases p : second = 0x70
              · have after : (space == (0x66 : Byte)) = false := rfl
                simp [readPair, p, after, none]
              · simp [readPair, dd, p, letters]
  | false =>
      have notD : first ≠ 0x64 := beq_eq_false_iff_ne.mp d
      cases arch with
      | x86_64 => simp [readPair, notD, both]
      | aarch64 =>
          cases p : first == 0x70 with
          | true =>
              obtain rfl := beq_iff_eq.mp p
              cases pf : second == 0x66 with
              | true => simp [readPair, pf]
              | false => simp [readPair, pf, letters]
          | false =>
              have notP : first ≠ 0x70 := beq_eq_false_iff_ne.mp p
              simp [readPair, notD, notP, both]

/-- The loop over the flags of a line. -/
theorem readVmFlags_flags (arch : Arch) {flags : List (Byte × Byte)}
    (lowercase : ∀ flag ∈ flags, isLower flag.1 = true ∧ isLower flag.2 = true) (rest : Bytes) :
    ∃ behind, newline ∉ behind ∧ readVmFlags arch (space :: (flagsText flags ++ newline :: rest)) =
      (flags.any (excludes arch), behind ++ newline :: rest) := by
  induction flags with
  | nil =>
      have last : readVmFlag arch (newline :: rest) = (false, newline :: rest) := by
        have solid : ¬ isLower newline = true := by decide
        have stops : (newline :: rest).dropWhile isLower = newline :: rest := List.dropWhile_cons_of_neg solid
        unfold readVmFlag
        rw [List.dropWhile_cons_of_neg (p := (· == space)) (by decide)]
        have d : newline ≠ (0x64 : Byte) := by decide
        have p : newline ≠ (0x70 : Byte) := by decide
        cases arch with
        | x86_64 => simp [readPair, d, stops]
        | aarch64 => simp [readPair, d, p, stops]
      refine ⟨[], List.not_mem_nil, ?_⟩
      rw [flagsText, List.flatMap_nil, List.nil_append, readVmFlags, if_pos rfl, last, if_neg Bool.false_ne_true, readVmFlags,
        if_neg (by decide)]
      rfl
  | cons flag flags ih =>
      obtain ⟨firstLower, secondLower⟩ := lowercase flag List.mem_cons_self
      have others : ∀ other ∈ flags, isLower other.1 = true ∧ isLower other.2 = true :=
        fun other member => lowercase other (List.mem_cons_of_mem _ member)
      have here := readVmFlag_flag arch firstLower secondLower (flagsText flags ++ newline :: rest)
      have text : flagsText (flag :: flags) ++ newline :: rest =
          flag.1 :: flag.2 :: space :: (flagsText flags ++ newline :: rest) := by
        rw [flagsText, List.flatMap_cons]
        rfl
      rw [text, readVmFlags, if_pos rfl, List.any_cons]
      by_cases found : excludes arch flag = true
      · rw [if_pos found] at here
        have free := newline_notMem_flagsText others
        refine ⟨flag.2 :: space :: flagsText flags, ?_, ?_⟩
        · intro member
          rcases List.mem_cons.mp member with same | later
          · exact (isLower_ne secondLower).2 same.symm
          · rcases List.mem_cons.mp later with same | later
            · cases same
            · exact free later
        · rw [here, if_pos rfl, found]
          rfl
      · rw [if_neg found] at here
        obtain ⟨behind, free, later⟩ := ih others
        refine ⟨behind, free, ?_⟩
        rw [here, if_neg Bool.false_ne_true, later, Bool.eq_false_iff.mpr found, Bool.false_or]

/-! ## Lines -/

/-- An uppercase letter goes on with the details. -/
theorem endsDetails_uppercase {ch : Byte} (least : 0x41 ≤ ch) (most : ch ≤ 0x5a) : endsDetails ch = false := by
  rw [UInt8.le_iff_toNat_le] at least most
  simp only [endsDetails, Bool.or_eq_false_iff, Bool.and_eq_false_iff, decide_eq_false_iff_not, UInt8.lt_iff_toNat_lt,
    UInt8.le_iff_toNat_le]
  simp only [UInt8.reduceToNat] at least most ⊢
  omega

section Line

variable {arch : Arch} {details after : Details}

/-- A line whose field is read within the line. -/
theorem readDetails_line (line : DetailLine) {behind rest : Bytes} (wanted : details.dontdump = false)
    (read : readField arch details (line.bytes ++ newline :: rest) = some (after, behind ++ newline :: rest))
    (free : newline ∉ behind) :
    readDetails arch false details (line.bytes ++ newline :: rest) = readDetails arch false after rest := by
  obtain ⟨ch, first, least, most⟩ := line.uppercase
  cases text : line.bytes with
  | nil =>
      rw [text] at first
      cases first
  | cons head tail =>
      rw [text] at first read
      cases first
      rw [List.cons_append] at read ⊢
      rw [readDetails, if_neg (by simp [endsDetails_uppercase least most]), if_neg (by simp [wanted])]
      split
      · rename_i failed
        rw [read] at failed
        cases failed
      · rename_i next text found
        rw [read] at found
        cases found
        split
        · rename_i failed
          rw [skipLine_eq free] at failed
          cases failed
        · rename_i left skipped
          rw [skipLine_eq free] at skipped
          cases skipped
          rfl

/-- A line without either field. -/
theorem readField_plain (line : DetailLine) (uncounted : ¬ anonymousField <+: line.bytes)
    (unflagged : ¬ vmFlagsField <+: line.bytes) (rest : Bytes) :
    ∃ behind, newline ∉ behind ∧
      readField arch details (line.bytes ++ newline :: rest) = some (details, behind ++ newline :: rest) := by
  unfold readField
  split
  · obtain ⟨behind, free, stops⟩ := readWord_other (by decide) line.oneLine uncounted rest
    refine ⟨behind, free, ?_⟩
    rw [readAnonymous, stops]
  · obtain ⟨behind, free, stops⟩ := readWord_other (by decide) line.oneLine unflagged rest
    refine ⟨behind, free, ?_⟩
    rw [stops]
  · exact ⟨line.bytes, line.oneLine, rfl⟩

/-- Lines without either field. -/
theorem readDetails_plain {lines : List DetailLine} (wanted : details.dontdump = false)
    (plain : ∀ line ∈ lines, ¬ anonymousField <+: line.bytes ∧ ¬ vmFlagsField <+: line.bytes) (rest : Bytes) :
    readDetails arch false details (linesText lines ++ rest) = readDetails arch false details rest := by
  induction lines with
  | nil => rfl
  | cons line lines ih =>
      obtain ⟨uncounted, unflagged⟩ := plain line List.mem_cons_self
      obtain ⟨behind, free, read⟩ := readField_plain line uncounted unflagged (linesText lines ++ rest)
      rw [linesText_cons, List.append_assoc, List.cons_append, readDetails_line line wanted read free]
      exact ih fun other member => plain other (List.mem_cons_of_mem _ member)

/-- A decimal digit is that of the port. -/
theorem digitByte_decimal {digit : Nat} (small : digit < 10) :
    (0x30 ≤ digitByte digit ∧ digitByte digit ≤ 0x39) ∧ (digitByte digit != 0x30) = decide (0 < digit) ∧
      digitByte digit ≠ space ∧ (digitByte digit).toNat - 0x30 = digit := by
  have checked : ∀ value ∈ List.range 10, (0x30 ≤ digitByte value ∧ digitByte value ≤ 0x39) ∧
      (digitByte value != 0x30) = decide (0 < value) ∧ digitByte value ≠ space ∧
        (digitByte value).toNat - 0x30 = value := by decide
  exact checked digit (List.mem_range.mpr small)

/-- The line that counts the anonymous pages. -/
theorem readField_counts (area : Area) (rest : Bytes) :
    ∃ behind, newline ∉ behind ∧ readField arch details (area.counts.bytes ++ newline :: rest) =
      some ({ details with anonymous := decide (0 < area.anonymous) }, behind ++ newline :: rest) := by
  obtain ⟨digit, more, digits, small, positive⟩ := numeral_head (show 1 < 10 by decide) area.anonymous
  obtain ⟨decimal, nonzero, solid, -⟩ := digitByte_decimal small
  have blanks : ∀ ch ∈ List.replicate area.blanks space, (ch == space) = true := fun ch member =>
    beq_iff_eq.mpr (List.eq_of_mem_replicate member)
  have first : (area.counts.bytes ++ newline :: rest).head? = some 0x41 := by
    rw [area.countsBytes]
    rfl
  have number : numeralText 10 1 area.anonymous = digitByte digit :: more.map digitByte := by
    rw [numeralText, digits, List.map_cons]
  refine ⟨digitByte digit :: (more.map digitByte ++ area.unit), ?_, ?_⟩
  · intro member
    apply area.counts.oneLine
    rw [area.countsBytes, number, List.cons_append]
    exact List.mem_append_right _ (List.mem_append_right _ member)
  · unfold readField
    rw [first]
    simp only
    rw [readAnonymous, area.countsBytes, List.append_assoc, readWord_append]
    simp only [List.append_assoc]
    rw [List.dropWhile_append_of_pos blanks, number, List.cons_append,
      List.dropWhile_cons_of_neg (p := (· == space)) (by simpa using solid)]
    simp only [decimal, and_self, if_true, nonzero, positive, List.cons_append, List.append_assoc]

/-- The line with the flags. -/
theorem readField_flags (area : Area) (wanted : details.dontdump = false) (rest : Bytes) :
    ∃ behind, newline ∉ behind ∧ readField arch details (area.flags.bytes ++ newline :: rest) =
      some ({ details with dontdump := area.excluded arch }, behind ++ newline :: rest) := by
  obtain ⟨behind, free, flags⟩ := readVmFlags_flags arch area.lowercase rest
  have first : (area.flags.bytes ++ newline :: rest).head? = some 0x56 := by
    rw [area.flagsBytes]
    rfl
  refine ⟨behind, free, ?_⟩
  unfold readField
  rw [first]
  simp only
  rw [area.flagsBytes, List.append_assoc, readWord_append, List.cons_append]
  simp only [flags, wanted, Bool.false_or]
  rfl

end Line

/-! ## Areas of the text -/

section Behind

variable (arch : Arch) (area : Area)

/-- The size line has neither field. -/
theorem Area.size_plain : ¬ anonymousField <+: area.size.bytes ∧ ¬ vmFlagsField <+: area.size.bytes := by
  obtain ⟨rest, size⟩ := area.sizeBytes
  rw [← size]
  constructor
  · rintro ⟨_, other⟩
    cases List.head_eq_of_cons_eq other
  · rintro ⟨_, other⟩
    cases List.head_eq_of_cons_eq other

/-- What the C library takes from the lines behind a header. -/
theorem readDetails_area {rest : Bytes} (ends : ∀ ch ∈ rest.head?, endsDetails ch = true) :
    readDetails arch false ⟨false, false⟩ (area.detailsText ++ rest) =
      some (⟨decide (0 < area.anonymous), area.excluded arch⟩, rest) := by
  have front : ∀ line ∈ area.size :: area.front,
      ¬ anonymousField <+: line.bytes ∧ ¬ vmFlagsField <+: line.bytes := by
    intro line member
    rcases List.mem_cons.mp member with rfl | later
    · exact area.size_plain
    · exact area.plain line (List.mem_append_left _ later)
  have middle : ∀ line ∈ area.middle, ¬ anonymousField <+: line.bytes ∧ ¬ vmFlagsField <+: line.bytes :=
    fun line member => area.plain line (List.mem_append_right _ member)
  have text : area.detailsText ++ rest = linesText (area.size :: area.front) ++ (area.counts.bytes ++
      newline :: (linesText area.middle ++ (area.flags.bytes ++ newline :: rest))) := by
    simp [Area.detailsText, Area.details, linesText]
  have last : readDetails arch false ⟨decide (0 < area.anonymous), area.excluded arch⟩ rest =
      some (⟨decide (0 < area.anonymous), area.excluded arch⟩, rest) := by
    cases rest with
    | nil => rw [readDetails]
    | cons ch rest => rw [readDetails, if_pos (ends ch rfl)]
  obtain ⟨_, countsFree, counts⟩ := @readField_counts arch ⟨false, false⟩ area
    (linesText area.middle ++ (area.flags.bytes ++ newline :: rest))
  obtain ⟨_, flagsFree, flags⟩ :=
    @readField_flags arch ⟨decide (0 < area.anonymous), false⟩ area rfl rest
  rw [text, readDetails_plain rfl front, readDetails_line _ rfl counts countsFree, readDetails_plain rfl middle,
    readDetails_line _ rfl flags flagsFree, last]

/-- Behind the header of a device the C library stops inside of the size line. -/
theorem readDetails_device (rest : Bytes) :
    ∃ behind, readDetails arch true ⟨false, false⟩ (area.detailsText ++ rest) =
      some (⟨false, false⟩, 0x65 :: 0x3a :: behind) := by
  obtain ⟨size, bytes⟩ := area.sizeBytes
  have text : ∃ behind, area.detailsText ++ rest = 0x53 :: 0x69 :: 0x7a :: 0x65 :: 0x3a :: behind := by
    refine ⟨size ++ newline :: (linesText (area.front ++ area.counts :: (area.middle ++ [area.flags])) ++ rest), ?_⟩
    simp [Area.detailsText, Area.details, linesText, ← bytes, sizeField]
  obtain ⟨behind, shape⟩ := text
  refine ⟨behind, ?_⟩
  have skips : ∀ ch more, endsDetails ch = false →
      readDetails arch true ⟨false, false⟩ (ch :: more) = readDetails arch true ⟨false, false⟩ more := by
    intro ch more other
    rw [readDetails, if_neg (by simp [other]), if_pos (by decide)]
  rw [shape, skips _ _ (by decide), skips _ _ (by decide), skips _ _ (by decide), readDetails, if_pos (by decide)]

/-- No header line starts like that. -/
theorem readHeader_size (behind : Bytes) : readHeader (0x65 :: 0x3a :: behind) = none := by
  have start : delimitedHex dash (0x65 :: 0x3a :: behind) = none := by
    rw [delimitedHex, getHexWithInitChar, if_pos (by decide), getHexWithInitChar, if_neg (by decide)]
    exact if_neg (by decide)
  rw [readHeader, start]
  rfl

end Behind

end Corus.Reference
