import Corus.Logical.Numerals
import Corus.Proc.Delivery

/-!
# Reading the text of `/proc/self/maps`

`parse_self_maps` over the characters that it is given instead of a reader.
`parseSelfMaps_eq` says that this is all that the reader matters for.
-/

namespace Corus.Proc

open Corus.Logical Corus.Platform

/-! ## The parser on characters -/

/-- A hexadecimal number up to a delimiter, and the text behind it. -/
def scanHex (delimiter : Byte) (text : Bytes) : Option (UInt64 × Bytes) :=
  match text.dropWhile Io.isHexDigit with
  | [] => none
  | ch :: rest => if ch = delimiter then some (headerStart 0 text, rest) else none

/-- One more permission character. -/
def shiftPerm (flags : UInt16) (ch : Byte) : UInt16 := (flags <<< 1) ||| (if ch != dash then 1 else 0)

/-- The permission field, and the text behind the space that ends it. -/
def scanPerms (text : Bytes) : Option (UInt16 × Bytes) :=
  match text.dropWhile (· != space) with
  | [] => none
  | _ :: rest => some ((text.takeWhile (· != space)).foldl shiftPerm 0, rest)

/-- The text behind a field and the spaces around it. -/
def dropField (text : Bytes) : Bytes :=
  ((text.dropWhile (· == space)).dropWhile fun ch => ch != space && ch != newline).dropWhile (· == space)

/-- One more character of a path. -/
def NameBuffer.push (buffer : NameBuffer) (ch : Byte) : NameBuffer :=
  if buffer.len < fnameMax - 1 then ⟨buffer.name.setIfInBounds buffer.len ch, buffer.len + 1⟩ else buffer

/-- A path buffer without characters. -/
def NameBuffer.empty : NameBuffer := ⟨Vector.replicate _ 0, 0⟩

/-- One line, and the text from its end on. -/
def scanLine (text : Bytes) : Option (Mapping × Bytes) := do
  let (start, text) ← scanHex dash text
  let (stop, text) ← scanHex space text
  let (flags, text) ← scanPerms text
  let (offset, text) ← scanHex space text
  let text := dropField (dropField text)
  let buffer := (text.takeWhile (· != newline)).foldl NameBuffer.push .empty
  pure (Mapping.withName { Mapping.zeroed with
    start := start, «end» := stop, offset := offset, flags := ⟨flags⟩ } buffer, text.dropWhile (· != newline))

/-- As many lines as there are slots. -/
def scanLines : Nat → Bytes → Option (List Mapping)
  | 0, _ => some []
  | _ + 1, [] => some []
  | slots + 1, first :: rest =>
      match scanLine (first :: rest) with
      | none => none
      | some (mapping, []) => some [mapping]
      | some (mapping, _ :: rest) => (scanLines slots rest).map (mapping :: ·)

theorem getHex_eq (io : Io) :
    io.getHex.1 = headerStart 0 io.delivered ∧
      Io.pending io.getHex.2.1 io.getHex.2.2 = io.delivered.dropWhile Io.isHexDigit := by
  have loop := Io.getHexLoop_eq 0 io.getChar.1 io.getChar.2
  rwa [Io.pending_getChar] at loop

theorem readPerms_eq (flags : UInt16) (io : Io) :
    (readPerms flags io).map (fun read => (read.1, read.2.delivered)) =
      match io.delivered.dropWhile (· != space) with
      | [] => none
      | _ :: rest => some ((io.delivered.takeWhile (· != space)).foldl shiftPerm flags, rest) := by
  fun_induction readPerms flags io with
  | case1 flags io after got => rw [Io.delivered_of_none got]; rfl
  | case2 flags io after got => rw [Io.delivered_of_some got]; rfl
  | case3 flags io ch after got more ih =>
      have other : (ch != space) = true := bne_iff_ne.mpr more
      simp only [dite_eq_ite] at ih
      rw [ih, Io.delivered_of_some got, List.dropWhile_cons_of_pos (p := (· != space)) other,
        List.takeWhile_cons_of_pos (p := (· != space)) other]
      rfl

theorem skipField_eq (cur : Option Byte) (io : Io) :
    Io.pending (skipField cur io).1 (skipField cur io).2 = dropField (Io.pending cur io) := by
  simp only [skipField, dropField, Io.skipWhile_eq]

theorem readName_eq (buffer : NameBuffer) (cur : Option Byte) (io : Io) :
    (readName buffer cur io).1 = ((Io.pending cur io).takeWhile (· != newline)).foldl NameBuffer.push buffer ∧
      Io.pending (readName buffer cur io).2.1 (readName buffer cur io).2.2 =
        (Io.pending cur io).dropWhile (· != newline) := by
  fun_induction readName buffer cur io with
  | case1 => exact ⟨rfl, rfl⟩
  | case2 => exact ⟨rfl, rfl⟩
  | case3 buffer io ch more next ih =>
      have other : (ch != newline) = true := bne_iff_ne.mpr more
      rw [Io.pending_getChar] at ih
      rw [Io.pending_some, List.takeWhile_cons_of_pos (p := (· != newline)) other,
        List.dropWhile_cons_of_pos (p := (· != newline)) other]
      exact ih

/-- A number of the reader up to a delimiter is one of its characters. -/
theorem scanHex_eq {text : Bytes} {value : UInt64} {cur : Option Byte} {io : Io} (delimiter : Byte)
    (number : value = headerStart 0 text) (rest : Io.pending cur io = text.dropWhile Io.isHexDigit) :
    scanHex delimiter text = if cur = some delimiter then some (value, io.delivered) else none := by
  unfold scanHex
  rw [← rest, ← number]
  cases cur with
  | none => simp
  | some ch => simp

/-- One line of the reader is one line of its characters. -/
theorem parseLine_eq (first : Byte) (io : Io) :
    (parseLine first io).map (fun read => (read.1, Io.pending read.2.1 read.2.2)) =
      scanLine (first :: io.delivered) := by
  obtain ⟨start, behindStart⟩ := Io.getHexLoop_eq 0 (some first) io
  rcases readStart : Io.getHexLoop 0 (some first) io with ⟨startValue, curStart, ioStart⟩
  rw [readStart] at start behindStart
  have started := scanHex_eq dash start behindStart
  rw [Io.pending_some] at started
  simp only [parseLine, scanLine, Io.getHexWithInitChar, readStart, started]
  by_cases range : curStart = some dash
  swap
  · simp [range]
  obtain ⟨stop, behindStop⟩ := getHex_eq ioStart
  rcases readStop : ioStart.getHex with ⟨stopValue, curStop, ioStop⟩
  rw [readStop] at stop behindStop
  have stopped := scanHex_eq space stop behindStop
  simp only [range, ne_eq, not_true, if_false, if_true, Option.bind_eq_bind, Option.bind_some, stopped]
  by_cases ended : curStop = some space
  swap
  · simp [ended]
  have perms := readPerms_eq 0 ioStop
  simp only [ended, not_true, if_false, if_true, Option.bind_some]
  rw [show scanPerms ioStop.delivered = (readPerms 0 ioStop).map (fun read => (read.1, read.2.delivered)) from
    perms.symm]
  cases readFlags : readPerms 0 ioStop with
  | none => rfl
  | some read =>
    obtain ⟨flags, ioFlags⟩ := read
    obtain ⟨offset, behindOffset⟩ := getHex_eq ioFlags
    rcases readOffset : ioFlags.getHex with ⟨offsetValue, curOffset, ioOffset⟩
    rw [readOffset] at offset behindOffset
    have placed := scanHex_eq space offset behindOffset
    simp only [readOffset, Option.map_some, Option.bind_some, placed]
    by_cases fields : curOffset = some space
    swap
    · simp [fields]
    simp only [fields, not_true, if_false, if_true, Option.bind_some, Option.map_some]
    -- The space in hand is one of those that the device field starts with.
    have device := skipField_eq (some space) ioOffset
    have spaces : dropField (space :: ioOffset.delivered) = dropField ioOffset.delivered := rfl
    rw [Io.pending_some, spaces] at device
    generalize skipField (some space) ioOffset = behindDevice at device ⊢
    have inode := skipField_eq behindDevice.1 behindDevice.2
    rw [device] at inode
    generalize skipField behindDevice.1 behindDevice.2 = behindInode at inode ⊢
    obtain ⟨name, rest⟩ := readName_eq .empty behindInode.1 behindInode.2
    rw [inode] at name rest
    exact congrArg some (Prod.ext (congrArg (Mapping.withName _) name) rest)

/-- A line ends with its newline or with the text. -/
theorem scanLine_newline {text rest : Bytes} {mapping : Mapping} {ch : Byte}
    (scanned : scanLine text = some (mapping, ch :: rest)) : ch = newline := by
  simp only [scanLine, Option.bind_eq_bind, Option.bind_eq_some_iff, Option.pure_def, Option.some.injEq] at scanned
  obtain ⟨_, _, _, _, _, _, _, _, line⟩ := scanned
  have ended := congrArg List.head? (congrArg Prod.snd line)
  have stopped := List.head?_dropWhile_not (· != newline) (dropField (dropField ‹UInt64 × Bytes›.2))
  rw [ended] at stopped
  simpa using stopped

/-- All lines of the reader are those of its characters. -/
theorem parseLines_eq (slots : Nat) (cur : Option Byte) (io : Io) :
    parseLines slots cur io = scanLines slots (Io.pending cur io) := by
  induction slots generalizing cur io with
  | zero => cases cur <;> rfl
  | succ slots ih =>
      cases cur with
      | none => rfl
      | some first =>
          have line := parseLine_eq first io
          rw [Io.pending_some]
          simp only [parseLines, scanLines, ← line]
          cases parsed : parseLine first io with
          | none => rfl
          | some read =>
              obtain ⟨mapping, ended, after⟩ := read
              cases ended with
              | none => rfl
              | some ch =>
                  rw [parsed, Option.map_some, Io.pending_some] at line
                  rw [scanLine_newline line.symm]
                  simp only [if_true, ih, Io.pending_getChar, Option.map_some, Io.pending_some]

/-- `parse_self_maps` sees the file as the characters that its reader delivers. -/
theorem parseSelfMaps_eq {file : ProcFile} (opens : file.opening.result = .ok ()) (slots : Nat) :
    parseSelfMaps file slots =
      (scanLines slots (Io.new file).delivered).elim (.error .malformed) .ok := by
  simp only [parseSelfMaps, openRo, Response.retry_eq, opens, parseLines_eq, Io.pending_getChar]
  cases scanLines slots (Io.new file).delivered with
  | none => rfl
  | some mappings => rfl

/-- An opened file is refused exactly if one of its lines is malformed. -/
theorem parseSelfMaps_error_iff {file : ProcFile} (opens : file.opening.result = .ok ()) (slots : Nat) :
    (∃ error, parseSelfMaps file slots = .error error) ↔ scanLines slots (Io.new file).delivered = none := by
  rw [parseSelfMaps_eq opens]
  cases scanLines slots (Io.new file).delivered with
  | none => simp
  | some mappings => simp

end Corus.Proc
