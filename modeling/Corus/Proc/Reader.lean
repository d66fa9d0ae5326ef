import Corus.Platform.Kernel

/-!
# Buffered reading of `/proc` files

`Io` reads a file in blocks of at most 4096 bytes, of whatever size `read(2)`
delivers, and hands out single characters and hexadecimal numbers. A read error
looks like the end of the file. `getChar_some` is the fact all loops over the
reader rest on: a character that was returned has been consumed.
-/

namespace Corus.Proc

open Corus.Logical Corus.Platform

/-- A file under `/proc`: how opening it ends, its text, and the answers of
`read(2)` on it, one for each uninterrupted call. -/
structure ProcFile where
  opening : Response (Except Errno Unit)
  text : Bytes
  read : Nat → Response (Except Errno Nat)

/-- `open_ro`: opening for reading, retried when interrupted. -/
def openRo (file : ProcFile) : Except Errno Unit := file.opening.retry

/-- Read buffer size of `Io`. -/
def ioBufSize : Nat := 4096

/-- Buffered reader: the unread part of its buffer, the part of the file behind
it, and the number of read calls made. -/
structure Io where
  file : ProcFile
  clock : Nat
  buffered : Bytes
  remaining : Bytes

namespace Io

/-- `Io::new` on a file that was just opened. -/
def new (file : ProcFile) : Io := ⟨file, 0, [], file.text⟩

/-- The characters still to come. -/
def unread (io : Io) : Bytes := io.buffered ++ io.remaining

/-- `Io::get_char`. A count that `read(2)` returns is cut to what the buffer
takes and the file has left; it is not zero before the end of the file. -/
def getChar (io : Io) : Option Byte × Io :=
  match io.buffered with
  | byte :: rest => (some byte, { io with buffered := rest })
  | [] =>
      match (io.file.read io.clock).retry with
      | .error _ => (none, { io with clock := io.clock + 1 })
      | .ok count =>
          let taken := max 1 (min count ioBufSize)
          match io.remaining.take taken with
          | [] => (none, { io with clock := io.clock + 1 })
          | byte :: rest =>
              (some byte, { io with
                clock := io.clock + 1, buffered := rest, remaining := io.remaining.drop taken })

/-- A returned character was the next one to come. -/
theorem getChar_some {io after : Io} {byte : Byte} (got : io.getChar = (some byte, after)) :
    io.unread = byte :: after.unread := by
  unfold getChar at got
  split at got
  · rename_i buffer
    cases got
    simp [unread, buffer]
  · rename_i buffer
    split at got
    · cases got
    · rename_i count _
      simp only at got
      split at got
      · cases got
      · rename_i head rest block
        cases got
        have whole := List.take_append_drop (max 1 (min count ioBufSize)) io.remaining
        rw [block] at whole
        simp only [unread, buffer, List.nil_append]
        exact whole.symm

/-- Without a character nothing was consumed. -/
theorem getChar_none {io after : Io} (got : io.getChar = (none, after)) : after.unread = io.unread := by
  unfold getChar at got
  split at got
  · cases got
  · split at got
    · cases got
      rfl
    · simp only at got
      split at got
      · cases got
        rfl
      · cases got

/-- The file stays the same. -/
theorem getChar_file {io after : Io} {cur : Option Byte} (got : io.getChar = (cur, after)) :
    after.file = io.file := by
  unfold getChar at got
  split at got
  · cases got
    rfl
  · split at got
    · cases got
      rfl
    · simp only at got
      split at got <;> cases got <;> rfl

theorem length_unread_getChar (io : Io) : io.getChar.2.unread.length ≤ io.unread.length := by
  cases got : io.getChar with
  | mk current after =>
    cases current with
    | none => exact Nat.le_of_eq (congrArg List.length (getChar_none got))
    | some byte => simp [getChar_some got]

/-- The bound on the reader's loops: characters to come, and the one in hand. -/
def left (current : Option Byte) (io : Io) : Nat := io.unread.length + current.toList.length

/-- Reading on after a character leaves less to do. -/
theorem left_getChar (byte : Byte) (io : Io) :
    left io.getChar.1 io.getChar.2 < left (some byte) io := by
  cases got : io.getChar with
  | mk current after =>
    cases current with
    | none =>
        have kept := getChar_none got
        simp [left, kept]
    | some next =>
        have consumed := getChar_some got
        simp [left, consumed]

end Io

/-- The value of a hexadecimal digit. -/
def hexNibble (ch : Byte) : Option UInt64 :=
  if 0x30 ≤ ch ∧ ch ≤ 0x39 then some (ch - 0x30).toUInt64
  else if 0x41 ≤ ch ∧ ch ≤ 0x46 then some ((ch - 0x41).toUInt64 + 10)
  else if 0x61 ≤ ch ∧ ch ≤ 0x66 then some ((ch - 0x61).toUInt64 + 10)
  else none

namespace Io

/-- The loop of `get_hex_helper`: the value so far and the character in hand. -/
def getHexLoop (hex : UInt64) (cur : Option Byte) (io : Io) : UInt64 × Option Byte × Io :=
  match cur with
  | none => (hex, none, io)
  | some ch =>
      match hexNibble ch with
      | none => (hex, some ch, io)
      | some nibble => getHexLoop ((hex <<< 4) ||| nibble) io.getChar.1 io.getChar.2
termination_by left cur io
decreasing_by exact left_getChar ch io

/-- `Io::get_hex`. -/
def getHex (io : Io) : UInt64 × Option Byte × Io := getHexLoop 0 io.getChar.1 io.getChar.2

/-- `Io::get_hex_with_init_char`. -/
def getHexWithInitChar (io : Io) (initChar : Byte) : UInt64 × Option Byte × Io :=
  getHexLoop 0 (some initChar) io

/-- `while test(ch) { ch = io.get_char() }`; the end of the file stops the loop. -/
def skipWhile (test : Byte → Bool) (cur : Option Byte) (io : Io) : Option Byte × Io :=
  match cur with
  | none => (none, io)
  | some ch => if test ch then skipWhile test io.getChar.1 io.getChar.2 else (some ch, io)
termination_by left cur io
decreasing_by exact left_getChar ch io

end Io

end Corus.Proc
