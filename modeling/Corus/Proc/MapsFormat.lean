import Mathlib.Data.List.DropRight
import Corus.Proc.MapsText

/-!
# The format of `/proc/self/maps`

The lines that the kernel prints for memory areas, and what `parse_self_maps` stores for
each of them.
-/

namespace Corus.Proc

open Corus.Logical Corus.Platform

/-! ## Lines -/

/-- The name of an area: not empty, on one line, and not starting with a space. -/
structure VmaName where
  bytes : Bytes
  nonempty : bytes ≠ []
  oneLine : newline ∉ bytes
  led : bytes.head? ≠ some space

/-- A memory area as the kernel shows it, with the spaces that pad its line. -/
structure Vma where
  start : UInt64
  stop : UInt64
  offset : UInt64
  read : Bool
  write : Bool
  execute : Bool
  shared : Bool
  major : Nat
  minor : Nat
  inode : Nat
  blanks : Nat
  name : Option VmaName

namespace Vma

/-- `rwxp`, with dashes for what is missing and `s` for shared areas. -/
def perms (vma : Vma) : Bytes :=
  [if vma.read then 0x72 else dash, if vma.write then 0x77 else dash, if vma.execute then 0x78 else dash,
    if vma.shared then 0x73 else 0x70]

/-- The line up to the offset: `start-end perms offset`. -/
def lead (vma : Vma) : Bytes :=
  numeralText 16 8 vma.start.toNat ++ dash :: (numeralText 16 8 vma.stop.toNat ++ space ::
    (vma.perms ++ space :: numeralText 16 8 vma.offset.toNat))

/-- The device numbers. -/
def device (vma : Vma) : Bytes := numeralText 16 2 vma.major ++ 0x3a :: numeralText 16 2 vma.minor

/-- The name with the spaces in front of it. -/
def tail (vma : Vma) : Bytes :=
  match vma.name with
  | none => List.replicate vma.blanks space
  | some name => space :: (List.replicate vma.blanks space ++ name.bytes)

/-- The line behind the offset and a space: `dev inode name`. -/
def fields (vma : Vma) : Bytes := vma.device ++ space :: (numeralText 10 1 vma.inode ++ vma.tail)

/-- The line without its newline. -/
def line (vma : Vma) : Bytes := vma.lead ++ space :: vma.fields

/-- The name of the area, empty without one. -/
def nameBytes (vma : Vma) : Bytes := (vma.name.map VmaName.bytes).getD []

/-- The stored path: at most 255 bytes of the name, without trailing spaces. -/
def path (vma : Vma) : Bytes := (vma.nameBytes.take (fnameMax - 1)).rdropWhile (· == space)

end Vma

/-- `/dev/`. -/
def devDirectory : Bytes := [0x2f, 0x64, 0x65, 0x76, 0x2f]

/-- `/dev/zero`. -/
def devZero : Bytes := devDirectory ++ [0x7a, 0x65, 0x72, 0x6f]

/-- The text of the file. -/
def mapsText (vmas : List Vma) : Bytes := vmas.flatMap fun vma => vma.line ++ [newline]

/-! ## Numbers -/

/-- A digit is read as its value. -/
theorem hexNibble_digitByte {digit : Nat} (small : digit < 16) :
    hexNibble (digitByte digit) = some (UInt64.ofNat digit) := by
  have checked : ∀ value ∈ List.range 16, hexNibble (digitByte value) = some (UInt64.ofNat value) := by decide
  exact checked digit (List.mem_range.mpr small)

/-- Shifting in a digit. -/
theorem shiftLeft_or_digit (value : Nat) {digit : Nat} (small : digit < 16) :
    (UInt64.ofNat value <<< 4) ||| UInt64.ofNat digit = UInt64.ofNat (value * 16 + digit) := by
  apply UInt64.toNat_inj.mp
  have four : (4 : UInt64).toNat % 64 = 4 := rfl
  have shifted : (value % 2 ^ 64) <<< 4 % 2 ^ 64 = (value % 2 ^ 60) <<< 4 := by
    rw [Nat.shiftLeft_eq, Nat.shiftLeft_eq]
    omega
  rw [UInt64.toNat_or, UInt64.toNat_shiftLeft, four, UInt64.toNat_ofNat', UInt64.toNat_ofNat', UInt64.toNat_ofNat',
    shifted, Nat.mod_eq_of_lt (show digit < 2 ^ 64 by omega),
    ← Nat.shiftLeft_add_eq_or_of_lt (show digit < 2 ^ 4 by omega), Nat.shiftLeft_eq]
  omega

/-- The digits of a number are shifted in one after the other. -/
theorem headerStart_digits (digits : List Nat) (small : ∀ digit ∈ digits, digit < 16) (value : Nat) (rest : Bytes) :
    headerStart (UInt64.ofNat value) (digits.map digitByte ++ rest) =
      headerStart (UInt64.ofNat (numeralValue 16 value digits)) rest := by
  induction digits generalizing value with
  | nil => rfl
  | cons digit digits ih =>
      have here := small digit List.mem_cons_self
      simp only [List.map_cons, List.cons_append, headerStart, hexNibble_digitByte here, shiftLeft_or_digit value here]
      exact ih (fun other member => small other (List.mem_cons_of_mem _ member)) _

theorem isHexDigit_numeralText {width value : Nat} {byte : Byte} (member : byte ∈ numeralText 16 width value) :
    Io.isHexDigit byte = true := by
  obtain ⟨digit, small, rfl⟩ := mem_numeralText (by decide) member
  rw [Io.isHexDigit, hexNibble_digitByte small]
  rfl

/-- A number in front of a character that is no digit. -/
theorem headerStart_numeralText (width : Nat) (value : UInt64) {ch : Byte} (other : hexNibble ch = none)
    (rest : Bytes) : headerStart 0 (numeralText 16 width value.toNat ++ ch :: rest) = value := by
  have digits := headerStart_digits (numeral 16 width value.toNat) (fun _ => numeral_lt (by decide)) 0 (ch :: rest)
  rw [numeralValue_numeral, UInt64.ofNat_toNat] at digits
  rw [numeralText]
  refine digits.trans ?_
  simp only [headerStart, other]

theorem dropWhile_numeralText (width value : Nat) {ch : Byte} (other : hexNibble ch = none) (rest : Bytes) :
    (numeralText 16 width value ++ ch :: rest).dropWhile Io.isHexDigit = ch :: rest := by
  rw [List.dropWhile_append_of_pos fun _ => isHexDigit_numeralText]
  exact List.dropWhile_cons_of_neg (by simp [Io.isHexDigit, other])

/-- Scanning a number up to its delimiter. -/
theorem scanHex_numeralText (width : Nat) (value : UInt64) {delimiter : Byte} (other : hexNibble delimiter = none)
    (rest : Bytes) :
    scanHex delimiter (numeralText 16 width value.toNat ++ delimiter :: rest) = some (value, rest) := by
  simp only [scanHex, dropWhile_numeralText width value.toNat other, headerStart_numeralText width value other, if_true]

/-! ## Permissions -/

/-- The bits that are shifted in for the permission field. Both letters of the fourth
character count. -/
def Vma.rawPerms (vma : Vma) : Perms := ⟨vma.perms.foldl shiftPerm 0⟩

theorem space_notMem_perms (vma : Vma) : ∀ ch ∈ vma.perms, (ch != space) = true := by
  have checked : ∀ read write execute shared : Bool,
      ([if read then 0x72 else dash, if write then 0x77 else dash, if execute then 0x78 else dash,
        if shared then 0x73 else 0x70] : Bytes).all (· != space) = true := by decide
  exact List.all_eq_true.mp (checked vma.read vma.write vma.execute vma.shared)

theorem scanPerms_perms (vma : Vma) (rest : Bytes) :
    scanPerms (vma.perms ++ space :: rest) = some (vma.rawPerms.bits, rest) := by
  have field := space_notMem_perms vma
  have stops : ¬ (space != space) = true := by decide
  unfold scanPerms
  rw [List.dropWhile_append_of_pos field, List.takeWhile_append_of_pos field,
    List.dropWhile_cons_of_neg (p := (· != space)) stops, List.takeWhile_cons_of_neg (p := (· != space)) stops,
    List.append_nil]
  rfl

/-- The letters of the line, one bit each. -/
theorem rawPerms_bits (vma : Vma) :
    vma.rawPerms.readable = vma.read ∧ vma.rawPerms.writable = vma.write ∧
      vma.rawPerms.executable = vma.execute ∧ vma.rawPerms.isPrivate = true := by
  unfold Vma.rawPerms Vma.perms
  cases vma.read <;> cases vma.write <;> cases vma.execute <;> cases vma.shared <;> decide

/-! ## Skipped fields -/

/-- A field without spaces is skipped with the spaces behind it. -/
theorem dropField_append {field after : Bytes} (nonempty : field ≠ [])
    (solid : ∀ ch ∈ field, ch ≠ space ∧ ch ≠ newline) (ended : ∀ ch ∈ after.head?, ch = space ∨ ch = newline) :
    dropField (field ++ after) = after.dropWhile (· == space) := by
  have inside : ∀ ch ∈ field, (ch != space && ch != newline) = true := by
    intro ch member
    simpa using solid ch member
  have first : (field ++ after).dropWhile (· == space) = field ++ after := by
    cases field with
    | nil => exact absurd rfl nonempty
    | cons ch field => exact List.dropWhile_cons_of_neg (by simpa using (solid ch List.mem_cons_self).1)
  have stops : after.dropWhile (fun ch => ch != space && ch != newline) = after := by
    cases after with
    | nil => rfl
    | cons ch after =>
        apply List.dropWhile_cons_of_neg
        rcases ended ch rfl with rfl | rfl <;> decide
  rw [dropField, first, List.dropWhile_append_of_pos inside, stops]

/-- Digits are neither spaces nor newlines. -/
theorem numeralText_solid {base width value : Nat} (valid : 1 < base) (small : base ≤ 16) :
    ∀ ch ∈ numeralText base width value, ch ≠ space ∧ ch ≠ newline := by
  intro ch member
  obtain ⟨digit, below, rfl⟩ := mem_numeralText valid member
  have checked : ∀ value ∈ List.range 16, digitByte value ≠ space ∧ digitByte value ≠ newline := by decide
  exact checked digit (List.mem_range.mpr (by omega))

theorem device_solid (vma : Vma) : ∀ ch ∈ vma.device, ch ≠ space ∧ ch ≠ newline := by
  intro ch member
  rcases List.mem_append.mp member with major | other
  · exact numeralText_solid (by decide) (by decide) ch major
  · rcases List.mem_cons.mp other with rfl | minor
    · decide
    · exact numeralText_solid (by decide) (by decide) ch minor

theorem device_ne_nil (vma : Vma) : vma.device ≠ [] := by simp [Vma.device]

theorem newline_notMem_nameBytes (vma : Vma) : ∀ ch ∈ vma.nameBytes, (ch != newline) = true := by
  intro ch member
  unfold Vma.nameBytes at member
  cases named : vma.name with
  | none =>
      rw [named] at member
      cases member
  | some name =>
      rw [named] at member
      simp only [bne_iff_ne, ne_eq]
      rintro rfl
      exact name.oneLine member

/-- Behind the spaces of the tail stands the name. -/
theorem dropWhile_tail (vma : Vma) (rest : Bytes) :
    (vma.tail ++ newline :: rest).dropWhile (· == space) = vma.nameBytes ++ newline :: rest := by
  have stops : ¬ (newline == space) = true := by decide
  have blanks : ∀ count : Nat, ∀ ch ∈ List.replicate count space, (ch == space) = true := by
    intro count ch member
    rw [List.eq_of_mem_replicate member]
    decide
  unfold Vma.tail Vma.nameBytes
  cases vma.name with
  | none =>
      rw [List.dropWhile_append_of_pos (blanks _), List.dropWhile_cons_of_neg (p := (· == space)) stops]
      rfl
  | some name =>
      simp only [List.cons_append, List.append_assoc]
      rw [List.dropWhile_cons_of_pos (p := (· == space)) (by decide), List.dropWhile_append_of_pos (blanks _)]
      obtain ⟨bytes, nonempty, oneLine, led⟩ := name
      cases bytes with
      | nil => exact absurd rfl nonempty
      | cons ch bytes =>
          apply List.dropWhile_cons_of_neg
          intro blank
          rw [beq_iff_eq] at blank
          exact led (congrArg some blank)

/-- The two fields behind the offset are skipped. -/
theorem dropField_fields (vma : Vma) (rest : Bytes) :
    dropField (dropField (vma.fields ++ newline :: rest)) = vma.nameBytes ++ newline :: rest := by
  have inode : numeralText 10 1 vma.inode ≠ [] := numeralText_ne_nil (by decide)
  have solid := @numeralText_solid 10 1 vma.inode (by decide) (by decide)
  have device : dropField (vma.fields ++ newline :: rest) =
      numeralText 10 1 vma.inode ++ (vma.tail ++ newline :: rest) := by
    unfold Vma.fields
    rw [List.append_assoc, List.cons_append, List.append_assoc,
      dropField_append (device_ne_nil vma) (device_solid vma) (by
        intro ch first
        cases first
        exact Or.inl rfl),
      List.dropWhile_cons_of_pos (p := (· == space)) (by decide)]
    cases digits : numeralText 10 1 vma.inode with
    | nil => exact absurd digits inode
    | cons ch more =>
        rw [digits] at solid
        exact List.dropWhile_cons_of_neg (by simpa using (solid ch List.mem_cons_self).1)
  rw [device, dropField_append inode solid, dropWhile_tail]
  intro ch first
  unfold Vma.tail at first
  cases named : vma.name with
  | none =>
      rw [named] at first
      cases several : vma.blanks with
      | zero =>
          rw [several] at first
          exact Or.inr (Option.some.inj first).symm
      | succ count =>
          rw [several] at first
          exact Or.inl (Option.some.inj first).symm
  | some name =>
      rw [named] at first
      exact Or.inl (Option.some.inj first).symm

/-! ## Names -/

namespace NameBuffer

/-- The characters stored so far. -/
def stored (buffer : NameBuffer) : Bytes := buffer.name.toList.take buffer.len

theorem length_stored {buffer : NameBuffer} (fits : buffer.len < fnameMax) : buffer.stored.length = buffer.len := by
  simp only [stored, List.length_take, Vector.length_toList]
  omega

theorem push_fits {buffer : NameBuffer} (fits : buffer.len < fnameMax) (ch : Byte) :
    (buffer.push ch).len < fnameMax := by
  unfold push
  split
  · rename_i room
    exact Nat.succ_lt_of_lt_pred room
  · exact fits

/-- A character is appended while there is room. -/
theorem stored_push {buffer : NameBuffer} (fits : buffer.len < fnameMax) (ch : Byte) :
    (buffer.push ch).stored = (buffer.stored ++ [ch]).take (fnameMax - 1) := by
  have length := length_stored fits
  unfold push
  split
  · rename_i room
    have whole : (buffer.stored ++ [ch]).length ≤ fnameMax - 1 := by
      rw [List.length_append, length]
      exact room
    rw [List.take_of_length_le whole]
    simp only [stored, Vector.toList_setIfInBounds]
    rw [List.take_add_one, List.getElem?_set_self (by rw [Vector.length_toList]; omega),
      List.take_set_of_le (Nat.le_refl _)]
    rfl
  · rename_i full
    have exact : buffer.len = fnameMax - 1 := by omega
    rw [List.take_append_of_le_length (by omega), List.take_of_length_le (by omega)]

/-- The name loop stores the first characters of the name. -/
theorem stored_foldl_push {buffer : NameBuffer} (fits : buffer.len < fnameMax) (bytes : Bytes) :
    (bytes.foldl push buffer).stored = (buffer.stored ++ bytes).take (fnameMax - 1) ∧
      (bytes.foldl push buffer).len < fnameMax := by
  induction bytes generalizing buffer with
  | nil =>
      rw [List.append_nil, List.take_of_length_le (by rw [length_stored fits]; omega)]
      exact ⟨rfl, fits⟩
  | cons ch bytes ih =>
      obtain ⟨stored, small⟩ := ih (push_fits fits ch)
      refine ⟨?_, small⟩
      have twice : ∀ front : Bytes, (front.take (fnameMax - 1) ++ bytes).take (fnameMax - 1) =
          (front ++ bytes).take (fnameMax - 1) := by
        intro front
        rw [List.take_append, List.take_append, List.take_take, Nat.min_self, List.length_take]
        congr 2
        omega
      rw [List.foldl_cons, stored, stored_push fits, twice, List.append_assoc, List.singleton_append]

theorem stored_empty : empty.stored = [] := rfl

/-- The name loop on a name. -/
theorem stored_name (bytes : Bytes) :
    (bytes.foldl push empty).stored = bytes.take (fnameMax - 1) ∧ (bytes.foldl push empty).len < fnameMax := by
  have pushed := @stored_foldl_push empty (by decide) bytes
  rwa [stored_empty, List.nil_append] at pushed

end NameBuffer

/-- Trimming removes the trailing spaces. -/
theorem take_trimmedLen (name : Vector Byte fnameMax) {len : Nat} (fits : len ≤ fnameMax) :
    name.toList.take (trimmedLen name len) = (name.toList.take len).rdropWhile (· == space) := by
  induction len with
  | zero => rfl
  | succ len ih =>
      have inside : len < name.toList.length := by
        rw [Vector.length_toList]
        omega
      have last : name.toList[len]? = name[len]? := Vector.getElem?_toList
      rw [List.take_add_one, last, trimmedLen]
      rw [List.getElem?_eq_getElem inside] at last
      rw [← last, Option.toList_some, List.rdropWhile_concat]
      by_cases blank : name.toList[len] = space
      · rw [if_pos (congrArg some blank), if_pos (by simpa using blank)]
        exact ih (by omega)
      · have other : some name.toList[len] ≠ some space := fun same => blank (Option.some.inj same)
        rw [if_neg other, if_neg (by simpa using blank), List.take_add_one, List.getElem?_eq_getElem inside,
          Option.toList_some]

/-- The device check on a stored path. -/
theorem isDevicePath_iff (name : Bytes) :
    isDevicePath name = true ↔ devDirectory <+: name ∧ name ≠ devZero := by
  by_cases under : devDirectory <+: name
  · obtain ⟨rest, rfl⟩ := under
    simp only [List.prefix_append, true_and]
    simp only [isDevicePath, devDirectory, devZero, List.cons_append, List.nil_append, List.length_cons,
      List.length_nil, List.take_succ_cons, List.take_zero, List.drop_succ_cons, List.drop_zero]
    simp
    rintro other rfl
    exact other rfl
  · have other : name.take devDirectory.length ≠ devDirectory := by
      intro same
      exact under (List.prefix_iff_eq_take.mpr same.symm)
    have skipped : isDevicePath name = false := if_pos (by
      rw [Bool.or_eq_true]
      exact Or.inr (bne_iff_ne.mpr other))
    simp [skipped, under]

/-- What the record of a line says about its area. -/
structure Reflects (vma : Vma) (mapping : Mapping) : Prop where
  start : mapping.start = vma.start
  stop : mapping.end = vma.stop
  offset : mapping.offset = vma.offset
  read : mapping.flags.readable = vma.read
  write : mapping.flags.writable = vma.write
  execute : mapping.flags.executable = vma.execute
  path : mapping.path = vma.path
  terminated : mapping.name[mapping.nameLen]? = some 0
  anonymous : mapping.isAnon = true ↔ vma.path = [] ∨ vma.path.head? = some 0x5b
  device : mapping.isDevice = true ↔ devDirectory <+: vma.path ∧ vma.path ≠ devZero

/-- What is stored of a line before its path. -/
def Vma.leading (vma : Vma) : Mapping :=
  { Mapping.zeroed with start := vma.start, «end» := vma.stop, offset := vma.offset, flags := vma.rawPerms }

/-- The record that the parser makes of a line. -/
def Vma.record (vma : Vma) : Mapping := vma.leading.withName (vma.nameBytes.foldl NameBuffer.push .empty)

/-- Behind the offset the parser takes any text. -/
theorem scanLine_lead (vma : Vma) (text : Bytes) :
    scanLine (vma.lead ++ space :: text) =
      some (vma.leading.withName
        (((dropField (dropField text)).takeWhile (· != newline)).foldl NameBuffer.push .empty),
        (dropField (dropField text)).dropWhile (· != newline)) := by
  have start := @scanHex_numeralText 8 vma.start dash (by decide)
  have stop := @scanHex_numeralText 8 vma.stop space (by decide)
  have offset := @scanHex_numeralText 8 vma.offset space (by decide)
  simp only [scanLine, Vma.lead, List.append_assoc, List.cons_append, start, stop, scanPerms_perms, offset,
    Option.bind_eq_bind, Option.bind_some, Option.pure_def]
  rfl

/-- One line of the format. -/
theorem scanLine_line (vma : Vma) (rest : Bytes) :
    scanLine (vma.line ++ newline :: rest) = some (vma.record, newline :: rest) := by
  have name := newline_notMem_nameBytes vma
  have stops : ¬ (newline != newline) = true := by decide
  rw [Vma.line, List.append_assoc, List.cons_append, scanLine_lead, dropField_fields,
    List.takeWhile_append_of_pos name, List.dropWhile_append_of_pos name,
    List.takeWhile_cons_of_neg (p := (· != newline)) stops, List.dropWhile_cons_of_neg (p := (· != newline)) stops,
    List.append_nil]
  rfl

/-- One line of the format takes one slot. -/
theorem scanLines_line (vma : Vma) (slots : Nat) (rest : Bytes) :
    scanLines (slots + 1) (vma.line ++ newline :: rest) = (scanLines slots rest).map (vma.record :: ·) := by
  have line := scanLine_line vma rest
  cases text : vma.line ++ newline :: rest with
  | nil => simp at text
  | cons first more =>
      rw [text] at line
      simp only [scanLines, line]

theorem mapsText_cons (vma : Vma) (vmas : List Vma) :
    mapsText (vma :: vmas) = vma.line ++ newline :: mapsText vmas := by
  simp [mapsText]

/-- Complete lines in front of something else, while there are slots for them. -/
theorem scanLines_lines (vmas : List Vma) (slots : Nat) (rest : Bytes) :
    scanLines (vmas.length + slots) (mapsText vmas ++ rest) =
      (scanLines slots rest).map (vmas.map Vma.record ++ ·) := by
  induction vmas with
  | nil => simp [mapsText]
  | cons vma vmas ih =>
      rw [mapsText_cons, List.append_assoc, List.cons_append, List.length_cons, Nat.add_right_comm, scanLines_line, ih,
        Option.map_map]
      rfl

/-- A whole text. -/
theorem scanLines_mapsText (vmas : List Vma) (slots : Nat) :
    scanLines slots (mapsText vmas) = some ((vmas.map Vma.record).take slots) := by
  induction vmas generalizing slots with
  | nil => cases slots <;> rfl
  | cons vma vmas ih =>
      cases slots with
      | zero => cases mapsText (vma :: vmas) <;> rfl
      | succ slots =>
          rw [mapsText_cons, scanLines_line, ih]
          rfl

/-! ## Records -/

/-- The stored path of a record and what is derived from it. -/
theorem withName_path (mapping : Mapping) {buffer : NameBuffer} (fits : buffer.len < fnameMax) :
    (mapping.withName buffer).path = buffer.stored.rdropWhile (· == space) ∧
      (mapping.withName buffer).nameLen < fnameMax ∧
      (mapping.withName buffer).name[(mapping.withName buffer).nameLen]? = some 0 := by
  have trimmed := trimmedLen_le buffer.name buffer.len
  have small : trimmedLen buffer.name buffer.len < fnameMax := by omega
  refine ⟨?_, small, ?_⟩
  · simp only [Mapping.path, Mapping.withName, Vector.toList_setIfInBounds]
    rw [List.take_set_of_le (Nat.le_refl _), take_trimmedLen buffer.name (Nat.le_of_lt fits)]
    rfl
  · exact Vector.getElem?_setIfInBounds_self_of_lt small

theorem withName_isAnon (mapping : Mapping) (buffer : NameBuffer) :
    (mapping.withName buffer).isAnon = true ↔
      (mapping.withName buffer).path = [] ∨ (mapping.withName buffer).path.head? = some 0x5b := by
  cases len : trimmedLen buffer.name buffer.len with
  | zero => simp [Mapping.withName, Mapping.path, len]
  | succ count =>
      have first : (mapping.withName buffer).path.head? = some ((mapping.withName buffer).name[0]) := by
        simp only [Mapping.path, Mapping.withName, len]
        rw [List.head?_take, if_neg (by omega), List.head?_eq_getElem?, Vector.getElem?_toList]
        rfl
      have nonempty : (mapping.withName buffer).path ≠ [] := by
        intro empty
        rw [empty] at first
        cases first
      rw [first, or_iff_right nonempty]
      simp [Mapping.withName, len]

/-- The record of a line says what the line says. -/
theorem record_reflects (vma : Vma) : Reflects vma vma.record := by
  obtain ⟨stored, fits⟩ := NameBuffer.stored_name vma.nameBytes
  obtain ⟨read, write, execute, _⟩ := rawPerms_bits vma
  obtain ⟨trimmed, _, terminated⟩ := withName_path vma.leading fits
  have path : vma.record.path = vma.path := by
    rw [stored] at trimmed
    exact trimmed
  have anonymous := withName_isAnon vma.leading (vma.nameBytes.foldl NameBuffer.push .empty)
  have device : vma.record.isDevice = true ↔ _ := isDevicePath_iff vma.record.path
  rw [path] at device
  refine ⟨rfl, rfl, rfl, read, write, execute, path, terminated, ?_, device⟩
  rw [← path]
  exact anonymous

/-! ## The file -/

/-- The parsed file. -/
theorem parseSelfMaps_mapsText {vmas : List Vma} {file : ProcFile} (text : file.text = mapsText vmas)
    (opens : file.opening.result = .ok ()) (reliable : file.Reliable) (slots : Nat) :
    parseSelfMaps file slots = .ok ((vmas.map Vma.record).take slots) := by
  rw [parseSelfMaps_eq opens, delivered_of_reliable reliable, text, scanLines_mapsText]
  rfl

/-- A stored record is that of the line at its index. -/
theorem record_getElem? {vmas : List Vma} {slots index : Nat} {mapping : Mapping}
    (found : ((vmas.map Vma.record).take slots)[index]? = some mapping) :
    ∃ vma, vmas[index]? = some vma ∧ mapping = vma.record := by
  rw [List.getElem?_take] at found
  split at found
  · rw [List.getElem?_map, Option.map_eq_some_iff] at found
    obtain ⟨vma, here, same⟩ := found
    exact ⟨vma, here, same.symm⟩
  · cases found

/-- However the file is read, `parse_self_maps` stores what its lines say: one record for
each of them, as far as there are slots. -/
theorem parseSelfMaps_roundTrip (vmas : List Vma) {file : ProcFile} (text : file.text = mapsText vmas)
    (opens : file.opening.result = .ok ()) (reliable : file.Reliable) (slots : Nat) :
    ∃ mappings, parseSelfMaps file slots = .ok mappings ∧ mappings.length = min vmas.length slots ∧
      ∀ (index : Nat) mapping, mappings[index]? = some mapping →
        ∃ vma, vmas[index]? = some vma ∧ Reflects vma mapping := by
  refine ⟨_, parseSelfMaps_mapsText text opens reliable slots, ?_, ?_⟩
  · rw [List.length_take, List.length_map, Nat.min_comm]
  · intro index mapping found
    obtain ⟨vma, here, rfl⟩ := record_getElem? found
    exact ⟨vma, here, record_reflects vma⟩

/-- A shared library, mapped from its second page on. -/
def sampleVma : Vma where
  start := 0x7f0000001000
  stop := 0x7f0000003000
  offset := 0x1000
  read := true
  write := false
  execute := true
  shared := false
  major := 8
  minor := 2
  inode := 42
  blanks := 20
  name := some ⟨[0x2f, 0x6c, 0x20, 0x61], by decide, by decide, by decide⟩

/-- A file that comes in blocks of a given size, each behind an interrupted call. -/
def procFile (text : Bytes) (block : Nat) : ProcFile := ⟨⟨0, .ok ()⟩, text, fun _ => ⟨1, .ok block⟩⟩

theorem parseSelfMaps_procFile (vmas : List Vma) (block slots : Nat) :
    parseSelfMaps (procFile (mapsText vmas) block) slots = .ok ((vmas.map Vma.record).take slots) :=
  @parseSelfMaps_mapsText vmas (procFile (mapsText vmas) block) rfl rfl (fun _ => ⟨block, rfl⟩) slots

theorem parseSelfMaps_roundTrip_sample :
    ∃ mappings, parseSelfMaps (procFile (mapsText [sampleVma, sampleVma]) 7) 1 = .ok mappings ∧
      mappings.length = 1 ∧
      ∀ (index : Nat) mapping, mappings[index]? = some mapping →
        ∃ vma, [sampleVma, sampleVma][index]? = some vma ∧ Reflects vma mapping :=
  parseSelfMaps_roundTrip [sampleVma, sampleVma] rfl rfl (fun _ => ⟨7, rfl⟩) 1

end Corus.Proc
