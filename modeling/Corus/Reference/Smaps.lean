import Corus.Proc.Finalize
import Corus.Proc.SmapsText

/-!
# How the C library reads its mappings

`CreateElfCore` of `elfcore.c`, from which the engine was ported, up to the list of the
segments it dumps. It reads `/proc/self/smaps` alone, one character at a time, and
`/proc/self/maps` only to count its lines. A parser below gets the text from the character
in hand on, so that the empty text is the `-1` of `GetChar`.
-/

namespace Corus.Reference

open Corus.Logical Corus.Elf Corus.Proc

/-! ## Numbers -/

/-- `ch >= '0' && ch <= '9' || ch >= 'A' && ch <= 'F' || ch >= 'a' && ch <= 'f'`. -/
def isHex (ch : Byte) : Bool :=
  (0x30 ≤ ch && ch ≤ 0x39) || (0x41 ≤ ch && ch ≤ 0x46) || (0x61 ≤ ch && ch ≤ 0x66)

/-- `ch < 'A' ? ch - '0' : (ch & 0xF) + 9`. -/
def hexValue (ch : Byte) : UInt64 := if ch < 0x41 then (ch - 0x30).toUInt64 else (ch &&& 0xf).toUInt64 + 9

/-- `GetHexWithInitChar`: the number, and the text from the first other character on.
`GetHex` is the same one character later. -/
def getHexWithInitChar (hex : UInt64) : Bytes → UInt64 × Bytes
  | [] => (hex, [])
  | ch :: rest => if isHex ch then getHexWithInitChar ((hex <<< 4) ||| hexValue ch) rest else (hex, ch :: rest)

/-- A number that has to be followed by a delimiter, and the text behind it. -/
def delimitedHex (delimiter : Byte) (text : Bytes) : Option (UInt64 × Bytes) :=
  match getHexWithInitChar 0 text with
  | (hex, ch :: rest) => if ch = delimiter then some (hex, rest) else none
  | (_, []) => none

/-! ## The header line of a mapping -/

/-- `struct mapping`. -/
structure Segment where
  startAddress : UInt64
  endAddress : UInt64
  offset : UInt64
  writeSize : UInt64
  flags : UInt16
  isAnon : Bool
  nameLen : Nat
  name : Vector Byte fnameMax
deriving DecidableEq

/-- The flags loop: one bit for each character up to the space. -/
def readFlags (flags : UInt16) : Bytes → Option (UInt16 × Bytes)
  | [] => none
  | ch :: rest => if ch = space then some (flags, rest) else readFlags ((flags <<< 1) ||| (if ch != dash then 1 else 0)) rest

/-- `while (ch != ' ' && ch != '\n')`, which fails at the end of the file. -/
def skipSolid : Bytes → Option Bytes
  | [] => none
  | ch :: rest => if ch != space && ch != newline then skipSolid rest else some (ch :: rest)

/-- One round of the loop over the device numbers and the inode number. -/
def skipField (text : Bytes) : Option Bytes :=
  (skipSolid (text.dropWhile (· == space))).map (·.dropWhile (· == space))

/-- `while (ch != '\n')` over the file name, which fails at the end of the file. -/
def readName (buffer : NameBuffer) : Bytes → Option (NameBuffer × Bytes)
  | [] => none
  | ch :: rest => if ch = newline then some (buffer, ch :: rest) else readName (buffer.push ch) rest

/-- `"/dev/"` and `"zero"`. -/
def devPath : Bytes := [0x2f, 0x64, 0x65, 0x76, 0x2f]
def devZero : Bytes := [0x7a, 0x65, 0x72, 0x6f]

/-- A device mapping; `/dev/zero` is not one. -/
def isDevice (segment : Segment) : Bool :=
  devPath.length ≤ segment.nameLen && segment.name.toList.take devPath.length == devPath &&
    (segment.nameLen != devPath.length + devZero.length ||
      (segment.name.toList.drop devPath.length).take devZero.length != devZero)

theorem fnameMax_pos : 0 < fnameMax := by decide

/-- The header line: the segment so far, and the text from the newline on. -/
def readHeader (text : Bytes) : Option (Segment × Bytes) := do
  let (startAddress, text) ← delimitedHex dash text
  let (endAddress, text) ← delimitedHex space text
  let (flags, text) ← readFlags 0 text
  let (offset, text) ← delimitedHex space text
  let text ← skipField text
  let text ← skipField text
  let (buffer, text) ← readName .empty text
  let nameLen := trimmedLen buffer.name buffer.len
  let name := buffer.name.setIfInBounds nameLen 0
  let isAnon := nameLen == 0 || name.get ⟨0, fnameMax_pos⟩ == 0x5b
  pure (⟨startAddress, endAddress, offset, 0, flags, isAnon, nameLen, name⟩, text)

/-! ## The lines behind the header -/

/-- `has_anonymous_pages` and `dontdump`. -/
structure Details where
  anonymous : Bool
  dontdump : Bool
deriving DecidableEq, Repr

/-- `while (*str && ch == *str)`: whether the whole word was read, and the text behind it. -/
def readWord : Bytes → Bytes → Bool × Bytes
  | [], text => (true, text)
  | _ :: _, [] => (false, [])
  | expected :: word, ch :: rest => if ch = expected then readWord word rest else (false, ch :: rest)

theorem length_readWord (word text : Bytes) : (readWord word text).2.length ≤ text.length := by
  fun_induction readWord word text with
  | case1 => exact Nat.le_refl _
  | case2 => exact Nat.le_refl _
  | case3 word ch rest ih => exact Nat.le_succ_of_le ih
  | case4 => exact Nat.le_refl _

/-- `if (ch == first) { ch = GetChar(&io); if (ch == second) … }`: whether both were there. -/
def readPair (first second : Byte) : Bytes → Bool × Bytes
  | [] => (false, [])
  | ch :: rest => if ch = first then (rest.head? == some second, rest) else (false, ch :: rest)

theorem length_readPair (first second : Byte) (text : Bytes) : (readPair first second text).2.length ≤ text.length := by
  cases text with
  | nil => exact Nat.le_refl _
  | cons ch rest =>
      simp only [readPair]
      split
      · exact Nat.le_succ _
      · exact Nat.le_refl _

/-- A lowercase letter. -/
def isLower (ch : Byte) : Bool := 0x61 ≤ ch && ch ≤ 0x7a

/-- One round of the loop over flags, behind its first space: whether the flag says that the
mapping is not to be dumped, which on aarch64 `pf` does as well as `dd`. -/
def readVmFlag (arch : Arch) (text : Bytes) : Bool × Bytes :=
  match readPair 0x64 0x64 (text.dropWhile (· == space)) with
  | (true, text) => (true, text)
  | (false, text) =>
      match arch with
      | .x86_64 => (false, text.dropWhile isLower)
      | .aarch64 =>
          match readPair 0x70 0x66 text with
          | (true, text) => (true, text)
          | (false, text) => (false, text.dropWhile isLower)

theorem length_readVmFlag (arch : Arch) (text : Bytes) : (readVmFlag arch text).2.length ≤ text.length := by
  have shrinks : ∀ (test : Byte → Bool) (text : Bytes), (text.dropWhile test).length ≤ text.length :=
    fun test text => (List.dropWhile_suffix test).length_le
  have blanks := shrinks (· == space) text
  have first := length_readPair 0x64 0x64 (text.dropWhile (· == space))
  unfold readVmFlag
  rcases pair : readPair 0x64 0x64 (text.dropWhile (· == space)) with ⟨found, behind⟩
  rw [pair] at first
  have here := Nat.le_trans first blanks
  have letters := shrinks isLower behind
  cases found with
  | true => exact here
  | false =>
      cases arch with
      | x86_64 => exact Nat.le_trans letters here
      | aarch64 =>
          have second := length_readPair 0x70 0x66 behind
          simp only
          rcases other : readPair 0x70 0x66 behind with ⟨found, after⟩
          rw [other] at second
          have others := shrinks isLower after
          cases found with
          | true => exact Nat.le_trans second here
          | false => exact Nat.le_trans others (Nat.le_trans second here)

/-- `while (ch == ' ')` over the flags of a `VmFlags:` line. -/
def readVmFlags (arch : Arch) : Bytes → Bool × Bytes
  | [] => (false, [])
  | ch :: rest =>
      if ch = space then
        if (readVmFlag arch rest).1 then readVmFlag arch rest else readVmFlags arch (readVmFlag arch rest).2
      else (false, ch :: rest)
termination_by text => text.length
decreasing_by exact Nat.lt_succ_of_le (length_readVmFlag arch rest)

/-- `"Anonymous:"`, the spaces behind it, and the first digit of the number. -/
def readAnonymous (details : Details) (text : Bytes) : Option (Details × Bytes) :=
  match readWord anonymousField text with
  | (false, text) => some (details, text)
  | (true, text) =>
      match text.dropWhile (· == space) with
      | [] => none
      | ch :: rest =>
          if 0x30 ≤ ch ∧ ch ≤ 0x39 then some ({ details with anonymous := ch != 0x30 }, ch :: rest) else none

/-- The `switch` on the first character of a line. -/
def readField (arch : Arch) (details : Details) (text : Bytes) : Option (Details × Bytes) :=
  match text.head? with
  | some 0x41 => readAnonymous details text
  | some 0x56 =>
      match readWord vmFlagsField text with
      | (false, text) => some (details, text)
      | (true, text) =>
          some ({ details with dontdump := details.dontdump || (readVmFlags arch text).1 }, (readVmFlags arch text).2)
  | _ => some (details, text)

/-- `while (ch != '\n')` to the end of a line, which fails at the end of the file. -/
def skipLine : Bytes → Option Bytes
  | [] => none
  | ch :: rest => if ch = newline then some rest else skipLine rest

/-- The end of the file, or the first character of a header line. -/
def endsDetails (ch : Byte) : Bool := ch < 1 || (0x30 ≤ ch && ch ≤ 0x39) || (0x61 ≤ ch && ch ≤ 0x66)

theorem length_readVmFlags (arch : Arch) (text : Bytes) : (readVmFlags arch text).2.length ≤ text.length := by
  fun_induction readVmFlags arch text with
  | case1 => exact Nat.le_refl _
  | case2 rest found => exact Nat.le_succ_of_le (length_readVmFlag arch rest)
  | case3 rest other ih => exact Nat.le_trans ih (Nat.le_succ_of_le (length_readVmFlag arch rest))
  | case4 => exact Nat.le_refl _

theorem length_readField {arch : Arch} {details after : Details} {text behind : Bytes}
    (read : readField arch details text = some (after, behind)) : behind.length ≤ text.length := by
  unfold readField at read
  split at read
  · have word := length_readWord anonymousField text
    unfold readAnonymous at read
    rcases compared : readWord anonymousField text with ⟨matched, rest⟩
    rw [compared] at read word
    have blanks := (List.dropWhile_suffix (l := rest) (· == space)).length_le
    cases matched with
    | false =>
        cases read
        exact word
    | true =>
        simp only at read
        split at read
        · cases read
        · rename_i ch rest number
          rw [number] at blanks
          split at read
          · cases read
            exact Nat.le_trans blanks word
          · cases read
  · have word := length_readWord vmFlagsField text
    rcases compared : readWord vmFlagsField text with ⟨matched, rest⟩
    rw [compared] at read word
    have flags := length_readVmFlags arch rest
    cases matched with
    | false =>
        cases read
        exact word
    | true =>
        cases read
        exact Nat.le_trans flags word
  · cases read
    exact Nat.le_refl _

theorem length_skipLine {text behind : Bytes} (skipped : skipLine text = some behind) :
    behind.length < text.length := by
  fun_induction skipLine text with
  | case1 => cases skipped
  | case2 rest =>
      cases skipped
      exact Nat.lt_succ_self _
  | case3 ch rest other ih => exact Nat.lt_succ_of_lt (ih skipped)

/-- The loop over the lines behind a header, on the text behind its newline. For a mapping
that is not kept it goes on with the next character rather than with the next line. -/
def readDetails (arch : Arch) (device : Bool) (details : Details) (text : Bytes) : Option (Details × Bytes) :=
  match text with
  | [] => some (details, [])
  | ch :: rest =>
      if endsDetails ch then some (details, ch :: rest)
      else if device || details.dontdump then readDetails arch device details rest
      else
        match _read : readField arch details (ch :: rest) with
        | none => none
        | some (after, text) =>
            match _skipped : skipLine text with
            | none => none
            | some behind => readDetails arch device after behind
termination_by text.length
decreasing_by
  · exact Nat.lt_succ_self _
  · exact Nat.lt_of_lt_of_le (length_skipLine _skipped) (length_readField _read)

/-! ## Leading zeros -/

/-- The loop of `LeadingZeros`. `loopback` is the page at an address as it comes out of the
pipe, unless writing or reading it fails, and `ahead` what is left of the last such page. -/
def countZeros (loopback : Nat → Option Bytes) (mem len pagesize : Nat) : Nat → Nat → Bytes → Nat
  | 0, count, _ => count
  | rounds + 1, count, ahead =>
      if count < len then
        if count % pagesize = 0 then
          match loopback (mem + count) with
          | none => countZeros loopback mem len pagesize rounds (count + pagesize) ahead
          | some (0 :: ahead) => countZeros loopback mem len pagesize rounds (count + 1) ahead
          | some _ => count
        else
          match ahead with
          | 0 :: ahead => countZeros loopback mem len pagesize rounds (count + 1) ahead
          | _ => count
      else count

/-- `LeadingZeros`. -/
def leadingZeros (loopback : Nat → Option Bytes) (mem len : Nat) (pagesize : UInt64) : UInt64 :=
  alignDown (UInt64.ofNat (countZeros loopback mem len pagesize.toNat len 0 [])) pagesize

/-! ## The segments -/

/-- `PF_MASK`. -/
def pfMask : UInt16 := 7

/-- What becomes of a mapping behind its details. Every page that does not come through the
loopback pipe is skipped, so the first bytes are those of a page that did. -/
def keepSegment (memory : Nat → Byte) (loopback : Nat → Option Bytes) (pagesize : UInt64) (details : Details)
    (segment : Segment) : Option Segment :=
  let flags := (segment.flags >>> 1) &&& pfMask
  if isDevice segment || details.dontdump || flags &&& pfR.toUInt16 == 0 then none
  else
    let startAddress := segment.startAddress + leadingZeros loopback segment.startAddress.toNat
      (segment.endAddress - segment.startAddress).toNat pagesize
    if segment.endAddress == startAddress then none
    else
      let writeSize :=
        if segment.isAnon || details.anonymous || flags &&& pfW.toUInt16 != 0 then segment.endAddress - startAddress
        else if !segment.isAnon && segment.offset == 0 && flags &&& pfR.toUInt16 != 0 &&
            (List.range 4).map (fun index => memory (startAddress.toNat + index)) == elfMag then pagesize
        else 0
      some { segment with startAddress, flags, writeSize }

/-- `for (mapp = mappings; mapp < endmap;)`: a mapping that is not kept takes the last slot
with it. -/
def readSegments (arch : Arch) (memory : Nat → Byte) (loopback : Nat → Option Bytes) (pagesize : UInt64) :
    Nat → Bytes → Option (List Segment)
  | 0, _ => some []
  | slots + 1, text => do
      let (segment, text) ← readHeader text
      let (details, text) ← readDetails arch (isDevice segment) ⟨false, false⟩ text.tail
      let segments ← readSegments arch memory loopback pagesize slots text
      pure ((keepSegment memory loopback pagesize details segment).toList ++ segments)

/-- The segments that `CreateElfCore` dumps, given the texts of the two files. -/
def createSegments (arch : Arch) (memory : Nat → Byte) (loopback : Nat → Option Bytes) (pagesize : UInt64)
    (maps smaps : Bytes) : Option (List Segment) :=
  if smaps = [] then none else readSegments arch memory loopback pagesize (maps.count newline) smaps

end Corus.Reference
