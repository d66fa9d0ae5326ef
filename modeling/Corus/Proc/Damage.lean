import Corus.Proc.MapsFormat

/-!
# Damaged reads of the maps

`get_char` reports an error of `read(2)` like the end of the file, and each field of
`parse_self_maps` decides on its own whether that is an error. This module says where in
a line the text has to break off for the parser to notice.
-/

namespace Corus.Proc

open Corus.Logical Corus.Platform

/-! ## Lines that break off -/

/-- A beginning of a list that is split at an element ends before the element or behind it. -/
theorem isPrefix_append_cons {front back text : Bytes} {ch : Byte} (cut : text <+: front ++ ch :: back) :
    text <+: front ∨ ∃ rest, text = front ++ ch :: rest ∧ rest <+: back := by
  induction front generalizing text with
  | nil =>
      cases text with
      | nil => exact Or.inl List.nil_prefix
      | cons first rest =>
          obtain ⟨rfl, inside⟩ := List.cons_prefix_cons.mp cut
          exact Or.inr ⟨rest, rfl, inside⟩
  | cons head front ih =>
      cases text with
      | nil => exact Or.inl List.nil_prefix
      | cons first text =>
          obtain ⟨rfl, inside⟩ := List.cons_prefix_cons.mp cut
          rcases ih inside with short | ⟨rest, rfl, behind⟩
          · exact Or.inl (List.cons_prefix_cons.mpr ⟨rfl, short⟩)
          · exact Or.inr ⟨rest, rfl, behind⟩

/-- A number without its delimiter is malformed. -/
theorem scanHex_short {delimiter : Byte} {width value : Nat} {text : Bytes}
    (short : text <+: numeralText 16 width value) : scanHex delimiter text = none := by
  have digits : text.dropWhile Io.isHexDigit = [] :=
    List.dropWhile_eq_nil_iff.mpr fun _ member => isHexDigit_numeralText (short.subset member)
  simp only [scanHex, digits]

theorem scanPerms_short {vma : Vma} {text : Bytes} (short : text <+: vma.perms) : scanPerms text = none := by
  have letters : text.dropWhile (· != space) = [] :=
    List.dropWhile_eq_nil_iff.mpr fun ch member => space_notMem_perms vma ch (short.subset member)
  simp only [scanPerms, letters]

/-- A line that breaks off before the space behind its offset is malformed. -/
theorem scanLine_short {vma : Vma} {text : Bytes} (short : text <+: vma.lead) : scanLine text = none := by
  have start := @scanHex_numeralText 8 vma.start dash (by decide)
  have stop := @scanHex_numeralText 8 vma.stop space (by decide)
  rcases isPrefix_append_cons short with inStart | ⟨text, rfl, behindStart⟩
  · simp [scanLine, scanHex_short inStart]
  rcases isPrefix_append_cons behindStart with inStop | ⟨text, rfl, behindStop⟩
  · simp [scanLine, start, scanHex_short inStop]
  rcases isPrefix_append_cons behindStop with inPerms | ⟨text, rfl, inOffset⟩
  · simp [scanLine, start, stop, scanPerms_short inPerms]
  · simp [scanLine, start, stop, scanPerms_perms, scanHex_short inOffset]

theorem dropField_suffix (text : Bytes) : dropField text <:+ text :=
  ((List.dropWhile_suffix _).trans (List.dropWhile_suffix _)).trans (List.dropWhile_suffix _)

/-- A line that breaks off behind that space is taken as a whole one. -/
theorem scanLine_long {vma : Vma} {text : Bytes} (oneLine : newline ∉ text) :
    ∃ mapping, scanLine (vma.lead ++ space :: text) = some (mapping, []) := by
  have inside := (dropField_suffix (dropField text)).trans (dropField_suffix text)
  have whole : (dropField (dropField text)).dropWhile (· != newline) = [] := by
    refine List.dropWhile_eq_nil_iff.mpr ?_
    intro ch member
    rw [bne_iff_ne]
    rintro rfl
    exact oneLine (inside.subset member)
  rw [scanLine_lead, whole]
  exact ⟨_, rfl⟩

theorem newline_notMem_fields (vma : Vma) : newline ∉ vma.fields := by
  intro member
  have name : newline ∉ vma.nameBytes := fun listed => by
    have other := newline_notMem_nameBytes vma newline listed
    simp at other
  rcases List.mem_append.mp member with device | other
  · exact (device_solid vma newline device).2 rfl
  rcases List.mem_cons.mp other with blank | other
  · cases blank
  rcases List.mem_append.mp other with inode | other
  · exact (numeralText_solid (by decide) (by decide) newline inode).2 rfl
  unfold Vma.nameBytes at name
  unfold Vma.tail at other
  split at other
  · cases List.eq_of_mem_replicate other
  · rename_i bytes named
    rw [named] at name
    rcases List.mem_cons.mp other with blank | other
    · cases blank
    rcases List.mem_append.mp other with blank | listed
    · cases List.eq_of_mem_replicate blank
    · exact name listed

/-- What the parser makes of the line in which the text breaks off. -/
theorem scanLines_part {vma : Vma} {text : Bytes} (cut : text <+: vma.line) (slots : Nat) :
    scanLines (slots + 1) text = none ↔ text ≠ [] ∧ text <+: vma.lead := by
  by_cases empty : text = []
  · subst empty
    simp [scanLines]
  rcases isPrefix_append_cons cut with short | ⟨behind, rfl, inside⟩
  · obtain ⟨first, rest, rfl⟩ := List.exists_cons_of_ne_nil empty
    simp [scanLines, scanLine_short short, short]
  · obtain ⟨mapping, scanned⟩ := @scanLine_long vma behind fun member =>
      newline_notMem_fields vma (inside.subset member)
    have long : ¬ vma.lead ++ space :: behind <+: vma.lead := by
      intro shorter
      have length := shorter.length_le
      rw [List.length_append, List.length_cons] at length
      omega
    cases shape : vma.lead ++ space :: behind with
    | nil => exact absurd shape empty
    | cons first rest =>
        rw [shape] at scanned long
        simp [scanLines, scanned, long]

/-! ## Positions -/

/-- The number of lines that end before a position. -/
def linesBefore : List Vma → Nat → Nat
  | [], _ => 0
  | vma :: vmas, position =>
      if position ≤ vma.line.length then 0 else linesBefore vmas (position - (vma.line.length + 1)) + 1

/-- The characters between the start of its line and a position. -/
def columnOf : List Vma → Nat → Nat
  | [], _ => 0
  | vma :: vmas, position =>
      if position ≤ vma.line.length then position else columnOf vmas (position - (vma.line.length + 1))

/-- The line of a position; there is none at the end of the text. -/
def lineOf (vmas : List Vma) (position : Nat) : Option Vma := vmas[linesBefore vmas position]?

/-- The text up to a position: the lines before, and a part of the line of the position. -/
theorem take_mapsText (vmas : List Vma) {position : Nat} (inside : position ≤ (mapsText vmas).length) :
    ∃ part, (mapsText vmas).take position = mapsText (vmas.take (linesBefore vmas position)) ++ part ∧
      linesBefore vmas position ≤ vmas.length ∧ part.length = columnOf vmas position ∧
      (part = [] ∨ ∃ vma, lineOf vmas position = some vma ∧ part <+: vma.line) := by
  induction vmas generalizing position with
  | nil => exact ⟨[], by simp [mapsText], Nat.le_refl _, rfl, Or.inl rfl⟩
  | cons vma vmas ih =>
      rw [mapsText_cons] at inside ⊢
      unfold lineOf linesBefore columnOf
      by_cases here : position ≤ vma.line.length
      · simp only [here, if_true]
        refine ⟨vma.line.take position, ?_, Nat.zero_le _, by rw [List.length_take]; omega, Or.inr ⟨vma, rfl, ?_⟩⟩
        · rw [List.take_append_of_le_length here]
          rfl
        · exact List.take_prefix ..
      · obtain ⟨offset, rfl⟩ : ∃ offset, position = vma.line.length + (offset + 1) :=
          ⟨position - (vma.line.length + 1), by omega⟩
        have back : vma.line.length + (offset + 1) - (vma.line.length + 1) = offset := by omega
        have behind : offset ≤ (mapsText vmas).length := by
          rw [List.length_append, List.length_cons] at inside
          omega
        obtain ⟨part, cut, few, column, shape⟩ := ih behind
        simp only [here, if_false, back]
        refine ⟨part, ?_, Nat.succ_le_succ few, column, shape⟩
        rw [List.take_succ_cons, mapsText_cons, List.append_assoc, List.cons_append, ← cut,
          List.take_length_add_append, List.take_succ_cons]

/-- How reading the maps breaks off at a position: by an error of `read(2)` that is no
interruption, or because the file ends there, inside of a line. -/
inductive Damaged (vmas : List Vma) (position : Nat) (file : ProcFile) : Prop where
  | failed (errno : Errno) (notInterrupted : errno ≠ .eintr) (text : file.text = mapsText vmas)
      (reached : (Io.new file).delivered.length = position) (failure : (Io.new file).failure = some errno)
  | ended (text : file.text = (mapsText vmas).take position)
      (reliable : file.Reliable) (inside : 0 < columnOf vmas position)

/-- The parser gets the text up to the position. -/
theorem Damaged.delivered {vmas : List Vma} {position : Nat} {file : ProcFile} (damaged : Damaged vmas position file) :
    (Io.new file).delivered = (mapsText vmas).take position := by
  cases damaged with
  | failed errno notInterrupted text reached failure =>
      have front := (Io.new file).delivered_isPrefix
      rw [← text, ← reached]
      exact List.prefix_iff_eq_take.mp front
  | ended text reliable inside => rw [delivered_of_reliable reliable, text]

/-- `parse_self_maps` notices that reading the maps broke off exactly if this happens
inside of a line and before the space behind its offset. At the start of a line and in
the device, inode and name fields it is taken for the end of the file, and the mappings
seen so far are a success. -/
theorem parseSelfMaps_damaged_iff (vmas : List Vma) {position : Nat} (inside : position ≤ (mapsText vmas).length)
    {file : ProcFile} (opens : file.opening.result = .ok ()) (damaged : Damaged vmas position file) {slots : Nat}
    (room : linesBefore vmas position < slots) :
    (∃ error, parseSelfMaps file slots = .error error) ↔
      ∃ vma, lineOf vmas position = some vma ∧ 0 < columnOf vmas position ∧
        columnOf vmas position ≤ vma.lead.length := by
  obtain ⟨part, cut, few, column, shape⟩ := take_mapsText vmas inside
  have length : (vmas.take (linesBefore vmas position)).length = linesBefore vmas position := by
    rw [List.length_take]
    omega
  obtain ⟨left, rfl⟩ : ∃ left, slots = linesBefore vmas position + (left + 1) :=
    ⟨slots - linesBefore vmas position - 1, by omega⟩
  have lines := scanLines_lines (vmas.take (linesBefore vmas position)) (left + 1) part
  rw [length] at lines
  rw [parseSelfMaps_error_iff opens, damaged.delivered, cut, lines, Option.map_eq_none_iff, ← column]
  rcases shape with rfl | ⟨vma, here, front⟩
  · simp [scanLines]
  · have leads : vma.lead <+: vma.line := List.prefix_append ..
    rw [scanLines_part front]
    constructor
    · rintro ⟨nonempty, short⟩
      exact ⟨vma, here, List.length_pos_iff.mpr nonempty, short.length_le⟩
    · rintro ⟨other, there, nonempty, short⟩
      obtain rfl : vma = other := Option.some.inj (here.symm.trans there)
      exact ⟨List.length_pos_iff.mp nonempty, List.prefix_of_prefix_length_le front leads short⟩

/-- Two lines, of which the first one comes in one block, and no more. -/
def brokenFile : ProcFile where
  opening := ⟨0, .ok ()⟩
  text := mapsText [sampleVma, sampleVma]
  read call := ⟨1, if call = 0 then .ok (mapsText [sampleVma]).length else .error .enomem⟩

/-- A file that breaks off in the offset of its line. -/
def cutFile : ProcFile := procFile ((mapsText [sampleVma]).take 30) 7

theorem parseSelfMaps_damaged_iff_sample :
    ∃ error, parseSelfMaps cutFile 1 = .error error :=
  (@parseSelfMaps_damaged_iff [sampleVma] 30 (by decide) cutFile rfl
    (.ended rfl (fun _ => ⟨7, rfl⟩) (by decide)) 1 (by decide)).mpr ⟨sampleVma, rfl, by decide, by decide⟩

/-- A failed read in front of the second line is a success with one mapping. -/
theorem parseSelfMaps_unnoticed :
    Damaged [sampleVma, sampleVma] (mapsText [sampleVma]).length brokenFile ∧
      linesBefore [sampleVma, sampleVma] (mapsText [sampleVma]).length < 2 ∧
      parseSelfMaps brokenFile 2 = .ok [sampleVma.record] := by
  have first : (brokenFile.read 0).result = .ok (mapsText [sampleVma]).length := rfl
  have second : (brokenFile.read 1).result = .error .enomem := rfl
  obtain ⟨block, later⟩ := Io.delivered_block first (show mapsText [sampleVma, sampleVma] ≠ [] by decide)
  have taken : max 1 (min (mapsText [sampleVma]).length ioBufSize) = (mapsText [sampleVma]).length := by decide
  have whole : mapsText [sampleVma, sampleVma] = mapsText [sampleVma] ++ mapsText [sampleVma] := rfl
  obtain ⟨rest, failure⟩ := Io.delivered_error second (mapsText [sampleVma])
  rw [taken, whole, List.drop_left, rest, List.append_nil, List.take_left] at block
  rw [taken, whole, List.drop_left, failure] at later
  have delivered : (Io.new brokenFile).delivered = mapsText [sampleVma] := block
  refine ⟨.failed .enomem (by decide) rfl (congrArg List.length delivered) later, by decide, ?_⟩
  rw [parseSelfMaps_eq rfl, delivered, scanLines_mapsText]
  rfl

end Corus.Proc
