import Corus.Proc.Maps

/-!
# Details from `/proc/self/smaps`

`enrich_from_smaps` sets two flags of already parsed mappings, matched by start
address. It is best-effort: without the file, or where a section cannot be
matched, the mappings stay as they are. `enrichFromSmaps_plain` says that nothing
else of a mapping ever changes.
-/

namespace Corus.Proc

open Corus.Logical Corus.Platform

/-- Size of the line buffer. -/
def smapsLineMax : Nat := 256

/-- A line with the characters that fit the buffer, and the reader behind its end. -/
def readLine (line : Bytes) (cur : Option Byte) (io : Io) : Bytes × Io :=
  match cur with
  | none => (line, io)
  | some ch =>
      if ch = newline then (line, io)
      else
        readLine (if line.length < smapsLineMax then line ++ [ch] else line) io.getChar.1 io.getChar.2
termination_by Io.left cur io
decreasing_by exact Io.left_getChar ch io

/-- Header lines start with a lowercase hexadecimal digit. -/
def isHeaderLine (line : Bytes) : Bool :=
  match line.head? with
  | none => false
  | some ch => (0x30 ≤ ch && ch ≤ 0x39) || (0x61 ≤ ch && ch ≤ 0x66)

/-- The start address at the beginning of a header line. -/
def headerStart (val : UInt64) : Bytes → UInt64
  | [] => val
  | ch :: rest =>
      match hexNibble ch with
      | none => val
      | some nibble => headerStart ((val <<< 4) ||| nibble) rest

/-- `strip_prefix`. -/
def stripPrefix (line lead : Bytes) : Option Bytes :=
  if line.take lead.length = lead then some (line.drop lead.length) else none

def isBlank (ch : Byte) : Bool := ch == 0x20 || ch == 0x09

def decimalLoop (v : UInt64) : Bytes → UInt64
  | [] => v
  | ch :: rest =>
      if 0x30 ≤ ch ∧ ch ≤ 0x39 then decimalLoop (v * 10 + (ch - 0x30).toUInt64) rest else v

/-- `number_after`: the first decimal number after optional blanks. -/
def numberAfter (text : Bytes) : UInt64 := decimalLoop 0 (text.dropWhile isBlank)

/-- Dropping the blanks and the field behind them drops something. -/
theorem length_afterField {line : Bytes} (more : line ≠ []) :
    ((line.dropWhile isBlank).dropWhile (!isBlank ·)).length < line.length := by
  have shrinks : ∀ (test : Byte → Bool) (text : Bytes), (text.dropWhile test).length ≤ text.length :=
    fun test text => (List.dropWhile_suffix test).length_le
  cases line with
  | nil => exact absurd rfl more
  | cons ch rest =>
      by_cases blank : isBlank ch
      · have first := shrinks isBlank rest
        have second := shrinks (!isBlank ·) (rest.dropWhile isBlank)
        rw [List.dropWhile_cons_of_pos blank, List.length_cons]
        omega
      · have second := shrinks (!isBlank ·) rest
        rw [List.dropWhile_cons_of_neg blank, List.dropWhile_cons_of_pos (by simp [blank]),
          List.length_cons]
        omega

/-- `contains_token`: a search among the blank-separated fields of a line. -/
def containsToken (line token : Bytes) : Bool :=
  if _more : line = [] then false
  else if (line.dropWhile isBlank).takeWhile (!isBlank ·) = token then true
  else containsToken ((line.dropWhile isBlank).dropWhile (!isBlank ·)) token
termination_by line.length
decreasing_by exact length_afterField _more

/-- `"Anonymous:"`. -/
def anonymousField : Bytes := [0x41, 0x6e, 0x6f, 0x6e, 0x79, 0x6d, 0x6f, 0x75, 0x73, 0x3a]

/-- `"VmFlags:"`. -/
def vmFlagsField : Bytes := [0x56, 0x6d, 0x46, 0x6c, 0x61, 0x67, 0x73, 0x3a]

/-- `"dd"`, the kernel's VM_DONTDUMP. -/
def dontdumpFlag : Bytes := [0x64, 0x64]

/-- The mapping of the section being read, if it was matched, and all mappings. -/
structure Enrichment where
  cur : Option Nat
  maps : List Mapping

/-- What one line changes. -/
def Enrichment.line (state : Enrichment) (line : Bytes) : Enrichment :=
  if isHeaderLine line then
    { state with cur := state.maps.findIdx? (·.start == headerStart 0 line) }
  else
    match state.cur with
    | none => state
    | some index =>
        match stripPrefix line anonymousField with
        | some rest =>
            if 0 < numberAfter rest then
              { state with maps := state.maps.modify index fun m => { m with hasAnonPages := true } }
            else state
        | none =>
            if (stripPrefix line vmFlagsField).isSome && containsToken line dontdumpFlag then
              { state with maps := state.maps.modify index fun m => { m with dontdump := true } }
            else state

theorem length_unread_readLine (line : Bytes) (cur : Option Byte) (io : Io) :
    (readLine line cur io).2.unread.length ≤ io.unread.length := by
  fun_induction readLine line cur io with
  | case1 => exact Nat.le_refl _
  | case2 => exact Nat.le_refl _
  | case3 line io ch _ ih => exact Nat.le_trans ih io.length_unread_getChar

/-- The section loop. Every round reads at least one character. -/
def enrichLines (state : Enrichment) (io : Io) : List Mapping :=
  match _got : io.getChar with
  | (none, _) => state.maps
  | (some ch, after) =>
      enrichLines (state.line (readLine [] (some ch) after).1) (readLine [] (some ch) after).2
termination_by io.unread.length
decreasing_by
  have rest := length_unread_readLine [] (some ch) after
  rw [Io.getChar_some _got, List.length_cons]
  omega

/-- `enrich_from_smaps` on the parsed mappings. -/
def enrichFromSmaps (file : ProcFile) (maps : List Mapping) : List Mapping :=
  match openRo file with
  | .error _ => maps
  | .ok () => enrichLines ⟨none, maps⟩ (Io.new file)

/-! ## What smaps cannot change -/

/-- A mapping without its smaps details. -/
def Mapping.plain (mapping : Mapping) : Mapping :=
  { mapping with dontdump := false, hasAnonPages := false }

theorem Enrichment.line_plain (state : Enrichment) (line : Bytes) :
    (state.line line).maps.map Mapping.plain = state.maps.map Mapping.plain := by
  have modified : ∀ (maps : List Mapping) (index : Nat) (change : Mapping → Mapping),
      (∀ mapping, (change mapping).plain = mapping.plain) →
      (maps.modify index change).map Mapping.plain = maps.map Mapping.plain := by
    intro maps index change same
    apply List.ext_getElem?
    intro position
    rw [List.getElem?_map, List.getElem?_modify, List.getElem?_map]
    cases maps[position]? with
    | none => rfl
    | some mapping =>
        simp only [Option.map_eq_map, Option.map_some]
        split
        · rw [same]
        · rfl
  unfold Enrichment.line
  split
  · rfl
  · split
    · rfl
    · split
      · split
        · exact modified _ _ _ fun _ => rfl
        · rfl
      · split
        · exact modified _ _ _ fun _ => rfl
        · rfl

theorem enrichLines_plain (state : Enrichment) (io : Io) :
    (enrichLines state io).map Mapping.plain = state.maps.map Mapping.plain := by
  fun_induction enrichLines state io with
  | case1 => rfl
  | case2 state io ch after _ ih => rw [ih, state.line_plain]

/-- Whatever the smaps text is, only the two smaps flags of a mapping change. -/
theorem enrichFromSmaps_plain (file : ProcFile) (maps : List Mapping) :
    (enrichFromSmaps file maps).map Mapping.plain = maps.map Mapping.plain := by
  unfold enrichFromSmaps
  split
  · rfl
  · exact enrichLines_plain _ _

/-- An enriched mapping is a parsed one up to its smaps details. -/
theorem enriched_origin {file : ProcFile} {maps : List Mapping} {mapping : Mapping}
    (member : mapping ∈ enrichFromSmaps file maps) :
    ∃ source ∈ maps, source.plain = mapping.plain := by
  have shown : mapping.plain ∈ maps.map Mapping.plain :=
    enrichFromSmaps_plain file maps ▸ List.mem_map_of_mem member
  obtain ⟨source, listed, equal⟩ := List.mem_map.mp shown
  exact ⟨source, listed, equal⟩

end Corus.Proc
