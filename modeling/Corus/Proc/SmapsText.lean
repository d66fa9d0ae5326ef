import Corus.Logical.Numerals
import Corus.Proc.Delivery
import Corus.Proc.Kept
import Corus.Proc.MapsFormat

/-!
# The format of `/proc/self/smaps`

The sections that the kernel prints for memory areas, and what `enrich_from_smaps`
takes from them: every mapping gains what the sections with its start address say, and
nothing else.
-/

namespace Corus.Proc

open Corus.Logical Corus.Platform

/-! ## Lines of the reader -/

/-- The line loop keeps as much of a line as fits the buffer and stops behind its newline. -/
theorem readLine_eq {line : Bytes} (oneLine : newline ∉ line) (rest kept : Bytes) (room : kept.length ≤ smapsLineMax)
    (io : Io) (reliable : io.file.Reliable)
    (unread : io.unread = (line ++ newline :: rest).tail) :
    let read := readLine kept (line ++ newline :: rest).head? io
    read.1 = (kept ++ line).take smapsLineMax ∧ read.2.unread = rest ∧ read.2.file = io.file := by
  induction line generalizing kept io with
  | nil =>
      rw [List.nil_append, List.head?_cons, readLine, if_pos rfl, List.append_nil, List.take_of_length_le room]
      exact ⟨rfl, unread, rfl⟩
  | cons ch line ih =>
      have other : ch ≠ newline := fun same => oneLine (same ▸ List.mem_cons_self)
      have later : newline ∉ line := fun member => oneLine (List.mem_cons_of_mem _ member)
      obtain ⟨next, behind, same⟩ := Io.getChar_reliable reliable
      rw [unread, List.cons_append, List.tail_cons] at next behind
      rw [List.cons_append, List.head?_cons, readLine, if_neg other, next]
      have shorter : (if kept.length < smapsLineMax then kept ++ [ch] else kept).length ≤ smapsLineMax := by
        split
        · rw [List.length_append]
          assumption
        · exact room
      obtain ⟨first, second, third⟩ := ih later _ shorter io.getChar.2 (by rw [same]; exact reliable) behind
      refine ⟨first.trans ?_, second, third.trans same⟩
      split
      · rw [List.append_assoc, List.singleton_append]
      · rw [List.take_append_of_le_length (by omega), List.take_append_of_le_length (by omega)]

/-- What a line of the file changes, once it is cut to the buffer. -/
def sectionStep (state : Enrichment) (line : Bytes) : Enrichment := state.line (line.take smapsLineMax)

/-- One round of the section loop. -/
theorem enrichLines_line (state : Enrichment) {line : Bytes} (oneLine : newline ∉ line) {rest : Bytes} {io : Io}
    (reliable : io.file.Reliable)
    (unread : io.unread = line ++ newline :: rest) :
    ∃ after : Io, after.unread = rest ∧ after.file = io.file ∧
      enrichLines state io = enrichLines (sectionStep state line) after := by
  obtain ⟨next, behind, same⟩ := Io.getChar_reliable reliable
  obtain ⟨kept, left, file⟩ := readLine_eq oneLine rest [] (Nat.zero_le _) io.getChar.2 (by rw [same]; exact reliable)
    (by rw [behind, unread])
  rw [List.nil_append] at kept
  rw [enrichLines]
  split
  · rename_i after got
    rw [got, unread] at next
    simp at next
  · rename_i ch after got
    rw [got, unread] at next
    rw [got, ← next] at kept left file
    rw [got] at same
    exact ⟨_, left, file.trans same, by rw [kept, sectionStep]⟩

/-- The section loop over the lines of the file. -/
theorem enrichLines_lines (lines : List Bytes) (oneLine : ∀ line ∈ lines, newline ∉ line) (state : Enrichment) (io : Io)
    (reliable : io.file.Reliable)
    (unread : io.unread = lines.flatMap (· ++ [newline])) :
    enrichLines state io = (lines.foldl sectionStep state).maps := by
  induction lines generalizing state io with
  | nil =>
      obtain ⟨next, _, _⟩ := Io.getChar_reliable reliable
      rw [unread] at next
      rw [enrichLines]
      split
      · rfl
      · rename_i ch after got
        rw [got] at next
        cases next
  | cons line lines ih =>
      rw [List.flatMap_cons, List.append_assoc, List.singleton_append] at unread
      obtain ⟨after, left, same, round⟩ := enrichLines_line state (oneLine line List.mem_cons_self) reliable unread
      rw [round, List.foldl_cons]
      exact ih (fun other member => oneLine other (List.mem_cons_of_mem _ member)) _ after
        (by rw [same]; exact reliable) left

/-! ## Details -/

/-- A decimal digit. -/
def isDecimal (ch : Byte) : Bool := 0x30 ≤ ch && ch ≤ 0x39

/-- The value of an `Anonymous:` line. -/
def anonymousValue (line : Bytes) : Option Nat :=
  if anonymousField.isPrefixOf line then
    some (numeralValue 10 0 ((((line.drop anonymousField.length).dropWhile isBlank).takeWhile isDecimal).map
      fun ch => ch.toNat - 0x30))
  else none

/-- A `VmFlags:` line with a flag as one of its fields. -/
def HasFlag (line flag : Bytes) : Prop := vmFlagsField <+: line ∧ flag ∈ line.splitOnP isBlank

/-- A line behind a header: it starts with an uppercase letter, fits the line buffer, and
has no number that does not fit 64 bits. -/
structure DetailLine where
  bytes : Bytes
  uppercase : ∃ ch, bytes.head? = some ch ∧ 0x41 ≤ ch ∧ ch ≤ 0x5a
  short : bytes.length ≤ smapsLineMax
  oneLine : newline ∉ bytes
  bounded : ∀ value ∈ anonymousValue bytes, value < 2 ^ 64

/-- The line counts anonymous pages. -/
def DetailLine.Anonymous (line : DetailLine) : Prop := ∃ value ∈ anonymousValue line.bytes, 0 < value

/-- The line excludes the area from dumps. -/
def DetailLine.Dontdump (line : DetailLine) : Prop := HasFlag line.bytes dontdumpFlag

/-- What a mapping gains, and that nothing else of it changes. -/
structure Gains (anonymous dontdump : Prop) (mapping enriched : Mapping) : Prop where
  hasAnonPages : enriched.hasAnonPages = true ↔ mapping.hasAnonPages = true ∨ anonymous
  dontdump : enriched.dontdump = true ↔ mapping.dontdump = true ∨ dontdump
  rest : enriched.plain = mapping.plain

namespace Gains

theorem refl (mapping : Mapping) : Gains False False mapping mapping := ⟨by simp, by simp, rfl⟩

theorem trans {anonymous dontdump moreAnonymous moreDontdump : Prop} {mapping enriched final : Mapping}
    (first : Gains anonymous dontdump mapping enriched) (second : Gains moreAnonymous moreDontdump enriched final) :
    Gains (anonymous ∨ moreAnonymous) (dontdump ∨ moreDontdump) mapping final where
  hasAnonPages := by rw [second.hasAnonPages, first.hasAnonPages, or_assoc]
  dontdump := by rw [second.dontdump, first.dontdump, or_assoc]
  rest := second.rest.trans first.rest

theorem start {anonymous dontdump : Prop} {mapping enriched : Mapping}
    (gains : Gains anonymous dontdump mapping enriched) : enriched.start = mapping.start := by
  have same := congrArg Mapping.start gains.rest
  exact same

/-- Steps that each add something add it together. -/
theorem foldl {Item : Type} (items : List Item) (step : Mapping → Item → Mapping) (anonymous dontdump : Item → Prop)
    (start : UInt64) (each : ∀ item ∈ items, ∀ mapping : Mapping, mapping.start = start →
      Gains (anonymous item) (dontdump item) mapping (step mapping item)) (mapping : Mapping)
    (here : mapping.start = start) :
    Gains (∃ item ∈ items, anonymous item) (∃ item ∈ items, dontdump item) mapping (items.foldl step mapping) := by
  induction items generalizing mapping with
  | nil => simpa using refl mapping
  | cons item items ih =>
      have first := each item List.mem_cons_self mapping here
      have later := ih (fun other member => each other (List.mem_cons_of_mem _ member)) (step mapping item)
        (first.start.trans here)
      simpa using first.trans later

end Gains

/-- What `enrich_from_smaps` does with a detail line of a matched section. -/
def detailGain (mapping : Mapping) (line : Bytes) : Mapping :=
  match stripPrefix line anonymousField with
  | some rest => if 0 < numberAfter rest then { mapping with hasAnonPages := true } else mapping
  | none =>
      if (stripPrefix line vmFlagsField).isSome && containsToken line dontdumpFlag then
        { mapping with dontdump := true }
      else mapping

/-- Decimal digits are shifted in one after the other. -/
theorem decimalLoop_eq (value : Nat) (text : Bytes) :
    decimalLoop (UInt64.ofNat value) text =
      UInt64.ofNat (numeralValue 10 value ((text.takeWhile isDecimal).map fun ch => ch.toNat - 0x30)) := by
  induction text generalizing value with
  | nil => rfl
  | cons ch text ih =>
      by_cases digit : 0x30 ≤ ch ∧ ch ≤ 0x39
      · have decimal : isDecimal ch = true := by simpa [isDecimal] using digit
        rw [decimalLoop, if_pos digit, List.takeWhile_cons_of_pos decimal, List.map_cons, numeralValue_cons, ← ih]
        congr 1
        apply UInt64.toNat_inj.mp
        have nibble : (ch - 0x30).toUInt64.toNat = ch.toNat - 0x30 := UInt8.toNat_sub_of_le _ _ digit.1
        have ten : (10 : UInt64).toNat = 10 := rfl
        rw [UInt64.toNat_add, UInt64.toNat_mul, nibble, ten, UInt64.toNat_ofNat', UInt64.toNat_ofNat']
        omega
      · have other : ¬ isDecimal ch = true := by simpa [isDecimal] using digit
        rw [decimalLoop, if_neg digit, List.takeWhile_cons_of_neg other]
        rfl

/-- Blanks in front of a line only add empty fields. -/
theorem mem_splitOnP_dropWhile {token : Bytes} (nonempty : token ≠ []) (line : Bytes) :
    token ∈ line.splitOnP isBlank ↔ token ∈ (line.dropWhile isBlank).splitOnP isBlank := by
  induction line with
  | nil => rfl
  | cons ch line ih =>
      by_cases blank : isBlank ch = true
      · rw [List.dropWhile_cons_of_pos blank, List.splitOnP_cons_eq_if_modifyHead, if_pos blank, List.mem_cons,
          or_iff_right nonempty, ih]
      · rw [List.dropWhile_cons_of_neg blank]

/-- The fields of a line are its first one and those behind it. -/
theorem mem_splitOnP_field {token : Bytes} (nonempty : token ≠ []) (line : Bytes) :
    token ∈ line.splitOnP isBlank ↔ (line.dropWhile isBlank).takeWhile (!isBlank ·) = token ∨
      token ∈ ((line.dropWhile isBlank).dropWhile (!isBlank ·)).splitOnP isBlank := by
  rw [mem_splitOnP_dropWhile nonempty]
  generalize line.dropWhile isBlank = text
  have field : ∀ ch ∈ text.takeWhile (!isBlank ·), isBlank ch = false := by
    intro ch member
    simpa using List.mem_takeWhile_imp member
  nth_rewrite 1 [← List.takeWhile_append_dropWhile (p := (!isBlank ·)) (l := text)]
  cases behind : text.dropWhile (!isBlank ·) with
  | nil =>
      rw [List.append_nil, List.splitOnP_eq_singleton field, List.splitOnP_nil, List.mem_singleton, List.mem_singleton,
        or_iff_left nonempty, eq_comm]
  | cons ch rest =>
      have blank : isBlank ch = true := by
        have stopped := List.head?_dropWhile_not (!isBlank ·) text
        rw [behind] at stopped
        simpa using stopped
      rw [List.splitOnP_append_cons_of_forall_mem field ch blank, List.splitOnP_cons_eq_if_modifyHead, if_pos blank,
        List.mem_cons, List.mem_cons, or_iff_right nonempty (b := token ∈ _), eq_comm]

/-- The token search finds the fields of a line. -/
theorem containsToken_iff {token : Bytes} (nonempty : token ≠ []) (line : Bytes) :
    containsToken line token = true ↔ token ∈ line.splitOnP isBlank := by
  fun_induction containsToken line token with
  | case1 => simpa using nonempty
  | case2 line more found =>
      rw [mem_splitOnP_field nonempty]
      exact ⟨fun _ => Or.inl found, fun _ => rfl⟩
  | case3 line more other ih => rw [ih, mem_splitOnP_field nonempty line, or_iff_right other]

theorem stripPrefix_eq (line lead : Bytes) :
    stripPrefix line lead = if lead.isPrefixOf line then some (line.drop lead.length) else none := by
  have same : line.take lead.length = lead ↔ lead.isPrefixOf line = true := by
    rw [List.isPrefixOf_iff_prefix, List.prefix_iff_eq_take]
    exact eq_comm
  simp only [stripPrefix, same]

/-- The number of an `Anonymous:` line is its value. -/
theorem numberAfter_eq (line : DetailLine) {value : Nat} (found : anonymousValue line.bytes = some value) :
    (numberAfter (line.bytes.drop anonymousField.length)).toNat = value := by
  have bounded := line.bounded value found
  unfold anonymousValue at found
  split at found
  · have digits := decimalLoop_eq 0 ((line.bytes.drop anonymousField.length).dropWhile isBlank)
    rw [Option.some.inj found] at digits
    have number : numberAfter (line.bytes.drop anonymousField.length) = UInt64.ofNat value := digits
    rw [number, UInt64.toNat_ofNat', Nat.mod_eq_of_lt bounded]
  · cases found

/-- A line has at most one of the two fields. -/
theorem not_vmFlags_of_anonymous {line : Bytes} (counted : anonymousField <+: line) : ¬ vmFlagsField <+: line := by
  intro flags
  obtain ⟨_, rfl⟩ := counted
  obtain ⟨_, other⟩ := flags
  cases List.head_eq_of_cons_eq other

/-- One detail line. -/
theorem detailGain_gains (line : DetailLine) (mapping : Mapping) :
    Gains line.Anonymous line.Dontdump mapping (detailGain mapping line.bytes) := by
  unfold detailGain
  rw [stripPrefix_eq line.bytes anonymousField]
  by_cases counted : anonymousField.isPrefixOf line.bytes = true
  · have unflagged : ¬ line.Dontdump := fun flagged =>
      not_vmFlags_of_anonymous (List.isPrefixOf_iff_prefix.mp counted) flagged.1
    obtain ⟨value, found⟩ : ∃ value, anonymousValue line.bytes = some value := by simp [anonymousValue, counted]
    have number := numberAfter_eq line found
    have anonymous : line.Anonymous ↔ 0 < numberAfter (line.bytes.drop anonymousField.length) := by
      rw [DetailLine.Anonymous, found, UInt64.lt_iff_toNat_lt, number]
      simp
    simp only [counted, if_true]
    by_cases positive : 0 < numberAfter (line.bytes.drop anonymousField.length)
    · rw [if_pos positive]
      exact ⟨by simp [anonymous, positive], by simp [unflagged], rfl⟩
    · rw [if_neg positive]
      exact ⟨by simp [anonymous, positive], by simp [unflagged], rfl⟩
  · have uncounted : ¬ line.Anonymous := by
      rintro ⟨value, found, _⟩
      simp [anonymousValue, counted] at found
    have dontdump : line.Dontdump ↔
        ((stripPrefix line.bytes vmFlagsField).isSome && containsToken line.bytes dontdumpFlag) = true := by
      rw [DetailLine.Dontdump, HasFlag, ← containsToken_iff (by decide), ← List.isPrefixOf_iff_prefix, Bool.and_eq_true,
        stripPrefix_eq]
      cases vmFlagsField.isPrefixOf line.bytes <;> simp
    simp only [counted, Bool.false_eq_true, if_false]
    by_cases flagged : line.Dontdump
    · rw [if_pos (dontdump.mp flagged)]
      exact ⟨by simp [uncounted], by simp [flagged], rfl⟩
    · rw [if_neg (mt dontdump.mpr flagged)]
      exact ⟨by simp [uncounted], by simp [flagged], rfl⟩

/-! ## Sections -/

/-- A section: the start address of its header line, the rest of that line, of any
length, and the lines behind it. -/
structure SmapsSection where
  start : UInt64
  header : Bytes
  oneLine : newline ∉ header
  details : List DetailLine

namespace SmapsSection

/-- The header line. -/
def headerLine (part : SmapsSection) : Bytes := numeralText 16 8 part.start.toNat ++ dash :: part.header

def lines (part : SmapsSection) : List Bytes := part.headerLine :: part.details.map DetailLine.bytes

/-- The section counts anonymous pages. -/
def Anonymous (part : SmapsSection) : Prop := ∃ line ∈ part.details, line.Anonymous

/-- The section excludes its area from dumps. -/
def Dontdump (part : SmapsSection) : Prop := ∃ line ∈ part.details, line.Dontdump

/-- What a section does to a mapping. -/
def gain (mapping : Mapping) (part : SmapsSection) : Mapping :=
  if mapping.start = part.start then (part.details.map DetailLine.bytes).foldl detailGain mapping else mapping

end SmapsSection

/-- The text of the file. -/
def smapsText (sections : List SmapsSection) : Bytes :=
  (sections.flatMap SmapsSection.lines).flatMap (· ++ [newline])

theorem newline_notMem_headerLine (part : SmapsSection) : newline ∉ part.headerLine := by
  intro member
  rcases List.mem_append.mp member with digit | other
  · exact (numeralText_solid (by decide) (by decide) newline digit).2 rfl
  · rcases List.mem_cons.mp other with delimiter | rest
    · cases delimiter
    · exact part.oneLine rest

theorem SmapsSection.newline_notMem_lines (part : SmapsSection) {line : Bytes} (member : line ∈ part.lines) :
    newline ∉ line := by
  rcases List.mem_cons.mp member with rfl | detail
  · exact newline_notMem_headerLine part
  · obtain ⟨line, _, rfl⟩ := List.mem_map.mp detail
    exact line.oneLine

/-- An address fits the line buffer. -/
theorem length_numeralText_address (value : UInt64) : (numeralText 16 8 value.toNat).length ≤ 16 := by
  have digits : (Nat.digits 16 value.toNat).length ≤ 16 := by
    rw [Nat.digits_length_le_iff (by decide)]
    exact value.toNat_lt
  rw [numeralText, List.length_map, numeral, List.length_append, List.length_replicate, List.length_reverse]
  omega

/-- A header line selects the mapping with its start address. -/
theorem line_header (state : Enrichment) (part : SmapsSection) :
    sectionStep state part.headerLine =
      ⟨state.maps.findIdx? (·.start == part.start), state.maps⟩ := by
  have room := length_numeralText_address part.start
  obtain ⟨rest, kept⟩ : ∃ rest, part.headerLine.take smapsLineMax =
      numeralText 16 8 part.start.toNat ++ dash :: rest := by
    obtain ⟨left, room⟩ : ∃ left, smapsLineMax = (numeralText 16 8 part.start.toNat).length + (left + 1) := by
      refine ⟨smapsLineMax - (numeralText 16 8 part.start.toNat).length - 1, ?_⟩
      unfold smapsLineMax
      omega
    rw [SmapsSection.headerLine, room, List.take_length_add_append, List.take_succ_cons]
    exact ⟨part.header.take left, rfl⟩
  have isHeader : isHeaderLine (part.headerLine.take smapsLineMax) = true := by
    rw [kept]
    cases digits : numeralText 16 8 part.start.toNat with
    | nil => exact absurd digits (numeralText_ne_nil (by decide))
    | cons ch more =>
        have member : ch ∈ numeralText 16 8 part.start.toNat := digits ▸ List.mem_cons_self
        obtain ⟨digit, small, rfl⟩ := mem_numeralText (by decide) member
        have checked : ∀ value ∈ List.range 16, isHeaderLine [digitByte value] = true := by decide
        exact checked digit (List.mem_range.mpr small)
  unfold sectionStep Enrichment.line
  rw [if_pos isHeader, kept, headerStart_numeralText 8 part.start (by decide)]

/-- A detail line changes the selected mapping. -/
theorem line_detail (cur : Option Nat) (maps : List Mapping) (line : DetailLine) :
    sectionStep ⟨cur, maps⟩ line.bytes =
      ⟨cur, match cur with
        | none => maps
        | some index => maps.modify index (detailGain · line.bytes)⟩ := by
  obtain ⟨ch, first, least, most⟩ := line.uppercase
  have detail : isHeaderLine line.bytes = false := by
    simp only [isHeaderLine, first, Bool.or_eq_false_iff, Bool.and_eq_false_iff, decide_eq_false_iff_not]
    constructor
    · exact Or.inr (UInt8.not_le.mpr (UInt8.lt_of_lt_of_le (by decide) least))
    · exact Or.inl (UInt8.not_le.mpr (UInt8.lt_of_le_of_lt most (by decide)))
  rw [sectionStep, List.take_of_length_le line.short]
  unfold Enrichment.line detailGain
  rw [if_neg (by simp [detail])]
  cases cur with
  | none => rfl
  | some index =>
      have unchanged : maps = maps.modify index fun mapping => mapping := (List.modify_id ..).symm
      cases stripPrefix line.bytes anonymousField with
      | some rest =>
          by_cases positive : 0 < numberAfter rest
          · simp only [positive, if_true]
          · simp only [positive, if_false, ← unchanged]
      | none =>
          cases (stripPrefix line.bytes vmFlagsField).isSome && containsToken line.bytes dontdumpFlag with
          | true => rfl
          | false => exact congrArg (Enrichment.mk _) unchanged

/-- Changing the mapping found by its start address changes every mapping with it. -/
theorem modify_findIdx? (maps : List Mapping) (distinct : (maps.map Mapping.start).Nodup) (start : UInt64)
    (change : Mapping → Mapping) :
    (match maps.findIdx? (·.start == start) with
      | none => maps
      | some index => maps.modify index change) =
      maps.map fun mapping => if mapping.start = start then change mapping else mapping := by
  induction maps with
  | nil => rfl
  | cons mapping maps ih =>
      obtain ⟨fresh, distinct⟩ := List.nodup_cons.mp distinct
      rw [List.map_cons, List.findIdx?_cons]
      by_cases here : mapping.start = start
      · have others : maps.map (fun mapping => if mapping.start = start then change mapping else mapping) = maps := by
          refine (List.map_congr_left ?_).trans (List.map_id' maps)
          intro other member
          refine if_neg fun same => fresh ?_
          rw [here, ← same]
          exact List.mem_map_of_mem member
        simp [here, others]
      · rw [← ih distinct]
        cases maps.findIdx? (·.start == start) with
        | none => simp [here]
        | some index => simp [here]

theorem map_start_map {change : Mapping → Mapping} (same : ∀ mapping, (change mapping).start = mapping.start)
    (maps : List Mapping) : (maps.map change).map Mapping.start = maps.map Mapping.start := by
  rw [List.map_map]
  exact List.map_congr_left fun mapping _ => same mapping

theorem findIdx?_map_start {change : Mapping → Mapping} (same : ∀ mapping, (change mapping).start = mapping.start)
    (maps : List Mapping) (start : UInt64) :
    (maps.map change).findIdx? (·.start == start) = maps.findIdx? (·.start == start) := by
  rw [List.findIdx?_map]
  congr 1
  funext mapping
  simp only [Function.comp_apply, same]

/-- The details of a section change the mappings with its start address. -/
theorem foldl_details (details : List DetailLine) (maps : List Mapping) (distinct : (maps.map Mapping.start).Nodup)
    (start : UInt64) :
    (details.map DetailLine.bytes).foldl sectionStep ⟨maps.findIdx? (·.start == start), maps⟩ =
      ⟨maps.findIdx? (·.start == start), maps.map fun mapping =>
        if mapping.start = start then (details.map DetailLine.bytes).foldl detailGain mapping else mapping⟩ := by
  induction details generalizing maps with
  | nil => simp
  | cons line details ih =>
      have same : ∀ mapping : Mapping,
          (if mapping.start = start then detailGain mapping line.bytes else mapping).start = mapping.start := by
        intro mapping
        split
        · exact (detailGain_gains line mapping).start
        · rfl
      have first : sectionStep ⟨maps.findIdx? (·.start == start), maps⟩ line.bytes =
          ⟨maps.findIdx? (·.start == start), maps.map fun mapping =>
            if mapping.start = start then detailGain mapping line.bytes else mapping⟩ := by
        rw [line_detail, modify_findIdx? maps distinct]
      rw [List.map_cons, List.foldl_cons, first, ← findIdx?_map_start same maps start,
        ih _ (by rw [map_start_map same]; exact distinct), List.map_map]
      congr 1
      refine List.map_congr_left ?_
      intro mapping _
      by_cases here : mapping.start = start
      · have kept := (detailGain_gains line mapping).start.trans here
        simp [here, kept]
      · simp [here]

theorem gain_gains (part : SmapsSection) (mapping : Mapping) :
    Gains (part.start = mapping.start ∧ part.Anonymous) (part.start = mapping.start ∧ part.Dontdump) mapping
      (SmapsSection.gain mapping part) := by
  unfold SmapsSection.gain
  by_cases here : mapping.start = part.start
  · have all := Gains.foldl part.details (fun mapping line => detailGain mapping line.bytes) DetailLine.Anonymous
      DetailLine.Dontdump mapping.start (fun line _ other _ => detailGain_gains line other) mapping rfl
    rw [if_pos here, List.foldl_map]
    simpa [here, SmapsSection.Anonymous, SmapsSection.Dontdump] using all
  · rw [if_neg here]
    simpa [Ne.symm here] using Gains.refl mapping

/-- All sections. -/
theorem foldl_sections (sections : List SmapsSection) (state : Enrichment)
    (distinct : (state.maps.map Mapping.start).Nodup) :
    ((sections.flatMap SmapsSection.lines).foldl sectionStep state).maps =
      state.maps.map (sections.foldl SmapsSection.gain ·) := by
  induction sections generalizing state with
  | nil => simp
  | cons part sections ih =>
      have same := fun mapping => (gain_gains part mapping).start
      have here : (part.lines.foldl sectionStep state).maps = state.maps.map (SmapsSection.gain · part) := by
        rw [SmapsSection.lines, List.foldl_cons, line_header, foldl_details _ _ distinct]
        rfl
      rw [List.flatMap_cons, List.foldl_append, ih _ (by rw [here, map_start_map same]; exact distinct), here,
        List.map_map]
      rfl

/-- `enrich_from_smaps` on a file of sections, in any order and however it is read: every
mapping gains exactly what the sections with its start address say. Without the file
nothing changes. -/
theorem enrichFromSmaps_gains (sections : List SmapsSection) {file : ProcFile} (text : file.text = smapsText sections)
    (reliable : file.Reliable) (maps : List Mapping)
    (distinct : (maps.map Mapping.start).Nodup) :
    (file.opening.result = .ok () → (enrichFromSmaps file maps).length = maps.length ∧
      ∀ (index : Nat) mapping enriched, maps[index]? = some mapping →
        (enrichFromSmaps file maps)[index]? = some enriched →
        Gains (∃ part ∈ sections, part.start = mapping.start ∧ part.Anonymous)
          (∃ part ∈ sections, part.start = mapping.start ∧ part.Dontdump) mapping enriched) ∧
      ∀ errno, file.opening.result = .error errno → enrichFromSmaps file maps = maps := by
  constructor
  · intro opens
    refine ⟨length_enrichFromSmaps file maps, ?_⟩
    intro index mapping enriched here found
    have lines : ∀ line ∈ sections.flatMap SmapsSection.lines, newline ∉ line := by
      intro line member
      obtain ⟨part, _, inside⟩ := List.mem_flatMap.mp member
      exact part.newline_notMem_lines inside
    have whole : enrichFromSmaps file maps = maps.map (sections.foldl SmapsSection.gain ·) := by
      simp only [enrichFromSmaps, openRo, Response.retry_eq, opens]
      rw [enrichLines_lines _ lines _ (Io.new file) reliable text]
      exact foldl_sections sections ⟨none, maps⟩ distinct
    rw [whole, List.getElem?_map, here, Option.map_some] at found
    obtain rfl := Option.some.inj found
    refine Gains.foldl sections SmapsSection.gain (fun part => part.start = mapping.start ∧ part.Anonymous)
      (fun part => part.start = mapping.start ∧ part.Dontdump) mapping.start ?_ mapping rfl
    intro part _ other there
    rw [← there]
    exact gain_gains part other
  · intro errno fails
    simp only [enrichFromSmaps, openRo, Response.retry_eq, fails]

/-- `Anonymous:  4 kB`. -/
def anonymousLine : DetailLine where
  bytes := anonymousField ++ [0x20, 0x20, 0x34, 0x20, 0x6b, 0x42]
  uppercase := ⟨0x41, rfl, by decide, by decide⟩
  short := by decide
  oneLine := by decide
  bounded := by
    intro value found
    have four : anonymousValue (anonymousField ++ [0x20, 0x20, 0x34, 0x20, 0x6b, 0x42]) = some 4 := by decide
    rw [four] at found
    cases found
    decide

/-- `VmFlags: rd dd`. -/
def dontdumpLine : DetailLine where
  bytes := vmFlagsField ++ [0x20, 0x72, 0x64, 0x20, 0x64, 0x64]
  uppercase := ⟨0x56, rfl, by decide, by decide⟩
  short := by decide
  oneLine := by decide
  bounded := by
    intro value found
    have none : anonymousValue (vmFlagsField ++ [0x20, 0x72, 0x64, 0x20, 0x64, 0x64]) = none := by decide
    rw [none] at found
    cases found

/-- A section for an address without a mapping, and one for the sample area. -/
def sampleSections : List SmapsSection :=
  [⟨0x1000, [], by decide, [dontdumpLine]⟩, ⟨sampleVma.start, [0x37], by decide, [anonymousLine]⟩]

theorem enrichFromSmaps_gains_sample :
    ∃ enriched, (enrichFromSmaps (procFile (smapsText sampleSections) 7) [sampleVma.record])[0]? = some enriched ∧
      enriched.hasAnonPages = true ∧ enriched.plain = sampleVma.record.plain := by
  obtain ⟨opened, _⟩ := @enrichFromSmaps_gains sampleSections (procFile (smapsText sampleSections) 7) rfl
    (fun _ => ⟨7, rfl⟩) [sampleVma.record] (List.nodup_singleton _)
  obtain ⟨count, gains⟩ := opened rfl
  obtain ⟨enriched, only⟩ := List.length_eq_one_iff.mp count
  have found : (enrichFromSmaps (procFile (smapsText sampleSections) 7) [sampleVma.record])[0]? = some enriched := by
    rw [only]
    rfl
  have gained := gains 0 sampleVma.record enriched rfl found
  refine ⟨enriched, found, gained.hasAnonPages.mpr (Or.inr ?_), gained.rest⟩
  refine ⟨_, List.mem_cons_of_mem _ List.mem_cons_self, rfl, anonymousLine, List.mem_cons_self, 4, ?_, by decide⟩
  decide

end Corus.Proc
