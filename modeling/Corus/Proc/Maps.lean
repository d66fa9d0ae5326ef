import Corus.Proc.Mapping
import Corus.Proc.Reader

/-!
# Parsing `/proc/self/maps`

`parse_self_maps` reads lines `start-end perms offset dev inode path` into fresh
mapping records, as many as fit the array it is given.
-/

namespace Corus.Proc

open Corus.Logical Corus.Platform

def space : Byte := 0x20
def newline : Byte := 0x0a
def dash : Byte := 0x2d

/-- Error returned while parsing `/proc/self/maps`. -/
inductive ParseMapsError where
  | open (errno : Errno)
  | malformed
deriving DecidableEq, Repr

/-- `ParseMapsError::errno`. -/
def ParseMapsError.errno : ParseMapsError → Errno
  | .open errno => errno
  | .malformed => .einval

/-- True if the name is a device under `/dev/`, other than `/dev/zero`. -/
def isDevicePath (name : Bytes) : Bool :=
  let dev : Bytes := [0x2f, 0x64, 0x65, 0x76, 0x2f]
  let zero : Bytes := [0x7a, 0x65, 0x72, 0x6f]
  if name.length < dev.length || name.take dev.length != dev then false
  else !(name.length == dev.length + zero.length && name.drop dev.length == zero)

/-- The permission loop: one bit for each character up to the space. -/
def readPerms (flags : UInt16) (io : Io) : Option (UInt16 × Io) :=
  match _got : io.getChar with
  | (none, _) => none
  | (some ch, after) =>
      if ch = space then some (flags, after)
      else readPerms ((flags <<< 1) ||| (if ch != dash then 1 else 0)) after
termination_by io.unread.length
decreasing_by simp [Io.getChar_some _got]

/-- Skip one of the device and inode fields with the blanks around it. -/
def skipField (cur : Option Byte) (io : Io) : Option Byte × Io :=
  match Io.skipWhile (· == space) cur io with
  | (cur, io) =>
      match Io.skipWhile (fun ch => ch != space && ch != newline) cur io with
      | (cur, io) => Io.skipWhile (· == space) cur io

/-- The stored path while it is being read: the array and its used length. -/
structure NameBuffer where
  name : Vector Byte fnameMax
  len : Nat

/-- The file name loop: characters beyond the array are dropped. -/
def readName (buffer : NameBuffer) (cur : Option Byte) (io : Io) : NameBuffer × Option Byte × Io :=
  match cur with
  | none => (buffer, none, io)
  | some ch =>
      if ch = newline then (buffer, some ch, io)
      else
        let buffer := if buffer.len < fnameMax - 1 then
            ⟨buffer.name.setIfInBounds buffer.len ch, buffer.len + 1⟩ else buffer
        readName buffer io.getChar.1 io.getChar.2
termination_by Io.left cur io
decreasing_by exact Io.left_getChar ch io

/-- Trailing spaces are not part of the path. -/
def trimmedLen (name : Vector Byte fnameMax) : Nat → Nat
  | 0 => 0
  | len + 1 => if name[len]? = some space then trimmedLen name len else len + 1

/-- Store the path of a mapping and what is derived from it. -/
def Mapping.withName (mapping : Mapping) (buffer : NameBuffer) : Mapping :=
  let len := trimmedLen buffer.name buffer.len
  let name := buffer.name.setIfInBounds len 0
  { mapping with
    name := name
    nameLen := len
    isAnon := len == 0 || name[0] == 0x5b
    isDevice := isDevicePath (name.toList.take len) }

/-- One line, of which the first character is already read. The result has the
character that ended it. -/
def parseLine (first : Byte) (io : Io) : Option (Mapping × Option Byte × Io) :=
  match io.getHexWithInitChar first with
  | (start, terminator, io) =>
      if terminator ≠ some dash then none
      else
        match io.getHex with
        | (stop, terminator, io) =>
            if terminator ≠ some space then none
            else
              match readPerms 0 io with
              | none => none
              | some (flags, io) =>
                  match io.getHex with
                  | (offset, cur, io) =>
                      if cur ≠ some space then none
                      else
                        match skipField cur io with
                        | (cur, io) =>
                            match skipField cur io with
                            | (cur, io) =>
                                match readName ⟨Vector.replicate _ 0, 0⟩ cur io with
                                | (buffer, cur, io) =>
                                    some (Mapping.withName { Mapping.zeroed with
                                      start := start, «end» := stop, offset := offset,
                                      flags := ⟨flags⟩ } buffer, cur, io)

/-- `while n < out.len()`: fill the remaining slots. -/
def parseLines : Nat → Option Byte → Io → Option (List Mapping)
  | 0, _, _ => some []
  | _ + 1, none, _ => some []
  | slots + 1, some first, io =>
      match parseLine first io with
      | none => none
      | some (mapping, none, _) => some [mapping]
      | some (mapping, some ch, io) =>
          match if ch = newline then io.getChar else (some ch, io) with
          | (cur, io) => (parseLines slots cur io).map (mapping :: ·)

/-- `parse_self_maps` into an array of `slots` mappings. -/
def parseSelfMaps (file : ProcFile) (slots : Nat) : Except ParseMapsError (List Mapping) :=
  match openRo file with
  | .error errno => .error (.open errno)
  | .ok () =>
      match parseLines slots (Io.new file).getChar.1 (Io.new file).getChar.2 with
      | none => .error .malformed
      | some mappings => .ok mappings

/-! ## What every parsed record satisfies -/

/-- The file name loop stays within the array. -/
theorem readName_len {buffer : NameBuffer} (fits : buffer.len < fnameMax) (cur : Option Byte) (io : Io) :
    (readName buffer cur io).1.len < fnameMax := by
  fun_induction readName buffer cur io with
  | case1 => exact fits
  | case2 => exact fits
  | case3 buffer io ch notNewline next ih =>
      apply ih
      simp only [next]
      split
      · rename_i room
        simp only
        omega
      · exact fits

theorem trimmedLen_le (name : Vector Byte fnameMax) (len : Nat) : trimmedLen name len ≤ len := by
  induction len with
  | zero => exact Nat.le_refl _
  | succ len ih =>
      unfold trimmedLen
      split
      · exact Nat.le_succ_of_le ih
      · exact Nat.le_refl _

/-- A record as the maps parser leaves it: smaps details and the write size are
still unset, and the path fits its array. -/
structure Mapping.Fresh (mapping : Mapping) : Prop where
  writeSize : mapping.writeSize = 0
  dontdump : mapping.dontdump = false
  hasAnonPages : mapping.hasAnonPages = false
  nameLen : mapping.nameLen < fnameMax

theorem parseLine_fresh {first : Byte} {io after : Io} {mapping : Mapping} {cur : Option Byte}
    (parsed : parseLine first io = some (mapping, cur, after)) : mapping.Fresh := by
  unfold parseLine at parsed
  simp only at parsed
  split at parsed
  · cases parsed
  split at parsed
  · cases parsed
  split at parsed
  · cases parsed
  split at parsed
  · cases parsed
  cases parsed
  refine ⟨rfl, rfl, rfl, ?_⟩
  exact Nat.lt_of_le_of_lt (trimmedLen_le _ _) (readName_len (by decide) _ _)

theorem parseLines_fresh {slots : Nat} {cur : Option Byte} {io : Io} {mappings : List Mapping}
    (parsed : parseLines slots cur io = some mappings) :
    mappings.length ≤ slots ∧ ∀ mapping ∈ mappings, mapping.Fresh := by
  induction slots generalizing cur io mappings with
  | zero =>
      cases parsed
      simp
  | succ slots ih =>
      cases cur with
      | none =>
          cases parsed
          simp
      | some first =>
          simp only [parseLines] at parsed
          split at parsed
          · cases parsed
          · rename_i mapping after line
            cases parsed
            simpa using parseLine_fresh line
          · rename_i mapping ch after line
            simp only [Option.map_eq_some_iff] at parsed
            obtain ⟨rest, parsedRest, rfl⟩ := parsed
            obtain ⟨count, fresh⟩ := ih parsedRest
            refine ⟨by simpa using count, ?_⟩
            intro other member
            rcases List.mem_cons.mp member with rfl | later
            · exact parseLine_fresh line
            · exact fresh other later

/-- The parser fills at most the array, with fresh records. -/
theorem parseSelfMaps_fresh {file : ProcFile} {slots : Nat} {mappings : List Mapping}
    (parsed : parseSelfMaps file slots = .ok mappings) :
    mappings.length ≤ slots ∧ ∀ mapping ∈ mappings, mapping.Fresh := by
  unfold parseSelfMaps at parsed
  split at parsed
  · cases parsed
  · split at parsed
    · cases parsed
    · rename_i lines
      cases parsed
      exact parseLines_fresh lines

end Corus.Proc
